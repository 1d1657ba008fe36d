import MerkleVault.App.AuditCoverage

/-! # Reveal

`RevealSecretCommand` decides whether a plaintext leaves the vault: the operator confirms by a slash
command or a signed attestation, an out-of-band challenge is dispatched and awaited where the policy
asks for one, the policy evaluator has the last word, and the `Allow` entry is committed before the
plaintext is returned.  The history of a reveal that returned a plaintext shows each of these.

* `execute_history`: what the history of every successful reveal holds;
* `execute_withOobAck`: the caller's `oob_ack` has no influence where a challenge is required;
* `reveal_authorized`: both, in every run. -/

namespace MerkleVault.App.Reveal

open MerkleVault.Types MerkleVault.Lib.Program MerkleVault.Identity MerkleVault.Audit.Entry
open MerkleVault.Audit.Writer MerkleVault.Audit.Integrity MerkleVault.Secrets.Aggregate
open MerkleVault.Sqlite.Tables MerkleVault.App.Context MerkleVault.App.Lifecycle
open MerkleVault.App.SecretCommands MerkleVault.App.AuditCoverage MerkleVault.App.IdentitySections
open MerkleVault.App.AuditDurability

variable (E : Env)

/-! ### The attestation verifier -/

/-- A signed attestation that stands for a slash command. -/
structure SignedConfigFlag where
  jwt : String
  keyId : String
deriving DecidableEq, Repr

/-- `splitn(3, '.')`, when there are three parts. -/
def splitJwt (jwt : String) : Option (String × String × String) :=
  match jwt.toList.span (· ≠ '.') with
  | (_, []) => none
  | (header, _ :: rest) =>
    match rest.span (· ≠ '.') with
    | (_, []) => none
    | (payload, _ :: signature) =>
      some (String.ofList header, String.ofList payload, String.ofList signature)

/-- A signature of exactly 64 bytes. -/
def signatureOfSlice (bytes : List UInt8) : Option (Vector UInt8 64) :=
  if h : bytes.length = 64 then some ⟨bytes.toArray, by simp [h]⟩ else none

/-- A denial with its reason. -/
def denied (reason : String) : AppError := .policyDenied reason

/-- The value, or the denial. -/
def orDenied {α : Type} (reason : String) : Option α → Except AppError α
  | some a => .ok a
  | none => .error (denied reason)

/-- The condition, or the denial. -/
def ensure (condition : Bool) (reason : String) : Except AppError Unit :=
  if condition then .ok () else .error (denied reason)

/-- `JwtAttestationVerifier::verify`. -/
def verifyAttestation (flag : SignedConfigFlag) (challengeId : ChallengeId) (operatorPubkey : Key)
    (now : Rfc3339Timestamp) : Except AppError Unit := do
  let (headerB64, payloadB64, sigB64) ←
    orDenied "invalid_signed_config_flag: malformed JWT" (splitJwt flag.jwt)
  let headerBytes ← orDenied "invalid_signed_config_flag" (E.base64UrlDecode headerB64)
  let header ← orDenied "invalid_signed_config_flag" (E.jwtHeader headerBytes)
  ensure (header.alg = "EdDSA") "invalid_signed_config_flag: alg must be EdDSA"
  ensure (operatorPubkey ≠ Vector.replicate 32 0) "invalid_signed_config_flag: key_not_enrolled"
  let sigBytes ← orDenied "signature_invalid" (E.base64UrlDecode sigB64)
  let signature ← orDenied "signature_invalid" (signatureOfSlice sigBytes)
  let signingInput := (headerB64 ++ "." ++ payloadB64).toUTF8.data.toList
  ensure (E.dalekVerify operatorPubkey signingInput signature) "signature_invalid"
  let payloadBytes ← orDenied "invalid_signed_config_flag" (E.base64UrlDecode payloadB64)
  let payload ← orDenied "invalid_signed_config_flag" (E.jwtPayload payloadBytes)
  ensure (payload.aud = "merkle-vault") "wrong_audience"
  ensure (now.timestamp < payload.exp) "expired"
  ensure (payload.challengeId = some (E.hyphenated challengeId.inner)) "challenge_mismatch"

/-! ### The policy evaluator -/

/-- What the operator has confirmed. -/
structure OperatorConfirmation where
  slashCommand : Bool
  oobAck : Bool
  signedConfigFlag : Option SignedConfigFlag
deriving DecidableEq, Repr

/-- A slash command, or its attestation. -/
def OperatorConfirmation.slashConfirmed (c : OperatorConfirmation) : Bool :=
  c.slashCommand || c.signedConfigFlag.isSome

/-- The answer of `evaluate`. -/
inductive RevealAuthorization
  | allow
  | deny (reason : String)
deriving DecidableEq, Repr

/-- Whether a reveal needs an out-of-band confirmation. -/
def needsOob (sensitivity oobThreshold : Sensitivity) (profile : SecurityProfile) : Bool :=
  oobThreshold.rank ≤ sensitivity.rank || profile = .paranoid

/-- `decision::evaluate`. -/
def evaluate (confirmation : OperatorConfirmation) (sensitivity oobThreshold : Sensitivity)
    (profile : SecurityProfile) (boundDeviceClass requiredDeviceClass : CompanionDeviceClass) :
    RevealAuthorization :=
  if !confirmation.slashConfirmed then .deny "missing_slash_command"
  else if needsOob sensitivity oobThreshold profile && !confirmation.oobAck then
    .deny "oob_ack_required"
  else if boundDeviceClass.rank < requiredDeviceClass.rank then .deny "device_class_insufficient"
  else .allow

/-! ### The command -/

/-- `RevealSecretCommand`. -/
structure RevealSecretCommand where
  namespaceId : NamespaceId
  handle : Handle
  operatorConfirmation : OperatorConfirmation
  challengeId : Option ChallengeId
  sensitivity : Sensitivity
  oobThreshold : Sensitivity
  securityProfile : SecurityProfile
  dekBytes : Key
  companionDevice : Option CompanionDevice
  oobChannel : OobChannel
  oobTimeout : Nat
  requiredDeviceClass : CompanionDeviceClass

namespace RevealSecretCommand

/-- The account of the operator's attestation key. -/
def accountOperatorAttestation : String := "merkle-operator-attestation"

/-- The command needs an answer out of band. -/
def oobRequired (cmd : RevealSecretCommand) : Bool :=
  needsOob cmd.sensitivity cmd.oobThreshold cmd.securityProfile

/-- The class of the bound device; without one it is software. -/
def boundDeviceClass (cmd : RevealSecretCommand) : CompanionDeviceClass :=
  match cmd.companionDevice with
  | some d => d.deviceClass
  | none => .software

/-- The entry of an allowed reveal. -/
def allow (cmd : RevealSecretCommand) : AppendParams :=
  { op := .reveal, outcome := .allow, namespaceId := cmd.namespaceId, handle := some cmd.handle
    sensitivity := some cmd.sensitivity, callerProgram := agent }

/-- The attestation route, taken when a signed flag comes without a slash command. -/
def attest (cmd : RevealSecretCommand) : Handler Unit :=
  match cmd.operatorConfirmation.signedConfigFlag with
  | none => return ()
  | some flag => do
    if cmd.operatorConfirmation.slashCommand then return () else
    let pubkeyBytes ← attempt (fun _ => denied "invalid_signed_config_flag: key_not_enrolled")
      (.port (.keychainRetrieve keychainService accountOperatorAttestation))
    let operatorPubkey ← orThrow (denied "invalid_signed_config_flag: key malformed")
      (keyOfSlice pubkeyBytes)
    let challengeId ← orThrow (denied "invalid_signed_config_flag: missing challenge_id")
      cmd.challengeId
    let now ← call (.port .now)
    ofExcept id (verifyAttestation E flag challengeId operatorPubkey now)

/-- The device that a challenge is for when none is enrolled; its keys are zero. -/
def softwarePlaceholderDevice : Handler CompanionDevice := do
  let deviceId ← call .newUuid
  let enrolledAt ← call (.port .now)
  return ⟨deviceId, Vector.replicate 32 0, Vector.replicate 32 0, .software, [], enrolledAt, none⟩

/-- The bound device, or a placeholder. -/
def targetDevice (cmd : RevealSecretCommand) : Handler CompanionDevice :=
  match cmd.companionDevice with
  | some d => return d
  | none => softwarePlaceholderDevice

/-- `Display` of an out-of-band error. -/
def oobErrorDisplay : OobError → String
  | .unavailable => "notifier unavailable"
  | .dispatchFailed detail => "dispatch failed: " ++ detail
  | .timeout => "timeout awaiting resolution"
  | .signatureFailed => "signature verify failed"
  | .backend detail => "backend: " ++ detail

/-- The signature over the nonce, checked when the device has a key and the resolution a
signature. -/
def checkSignature (device : CompanionDevice) (nonce : Key) (resolution : OobResolution) :
    Except CryptoError Unit :=
  if device.ed25519Pubkey ≠ Vector.replicate 32 0 then
    match resolution.deviceSignature with
    | some sig => E.ed25519Verify device.ed25519Pubkey nonce.toList sig
    | none => .ok ()
  else .ok ()

/-- An audited denial of this reveal. -/
def refuse {α : Type} (cmd : RevealSecretCommand) (reason : String) (detail : String) : Handler α :=
  deny .reveal cmd.namespaceId cmd.handle cmd.sensitivity reason (denied detail)

/-- Dispatch a fresh challenge and await its approval. -/
def challenge (cmd : RevealSecretCommand) : Handler Unit := do
  let device ← cmd.targetDevice
  let id ← call .newUuid
  let expiresAt ← call (.port .now)
  let nonce ← call (.port .randomBytes32)
  match ← call (.port (.oobDispatch
    ⟨⟨id⟩, cmd.namespaceId, cmd.handle, cmd.sensitivity, cmd.oobChannel, expiresAt, nonce⟩
    device)) with
  | .error e => cmd.refuse "oob_dispatch_failed" ("oob_dispatch_failed: " ++ oobErrorDisplay e)
  | .ok () =>
    match ← call (.port (.oobAwaitResolution ⟨id⟩ cmd.oobTimeout)) with
    | .error e => cmd.refuse "oob_timeout_or_failed" ("oob_timeout_or_failed: " ++ oobErrorDisplay e)
    | .ok resolution =>
      if !resolution.isApproved then cmd.refuse "oob_not_approved" "oob_not_approved"
      else match checkSignature E device nonce resolution with
        | .error e =>
          cmd.refuse "oob_signature_invalid" ("oob_signature_invalid: " ++ CryptoError.display e)
        | .ok () => return ()

/-- The confirmation that the evaluator sees: the caller's `oob_ack` counts only where no challenge
is required. -/
def effectiveConfirmation (cmd : RevealSecretCommand) : Handler OperatorConfirmation := do
  if cmd.oobRequired then
    cmd.challenge E
    return { cmd.operatorConfirmation with oobAck := true }
  else return cmd.operatorConfirmation

/-- Load, decrypt the active version, audit, return. -/
def release (cmd : RevealSecretCommand) : Handler Reply := do
  let secret ← loadSecret cmd.handle
  let version ← orThrow .notFound secret.activeVersion
  let plaintext ← ofExcept .crypto (decryptBlob E cmd.dekBytes version.blob)
  let hmacKey ← requireHmacKey
  auditCommit cmd.allow hmacKey
  return .revealed plaintext

/-- `RevealSecretCommand::execute`. -/
def execute (cmd : RevealSecretCommand) : Handler Reply := do
  requireUnsealed
  cmd.attest E
  let confirmation ← cmd.effectiveConfirmation E
  match evaluate confirmation cmd.sensitivity cmd.oobThreshold cmd.securityProfile
    cmd.boundDeviceClass cmd.requiredDeviceClass with
  | .deny reason => cmd.refuse reason reason
  | .allow => cmd.release E

end RevealSecretCommand

/-! ### What a successful reveal went through -/

section Authorization

variable (cmd : RevealSecretCommand)

/-- The verifier accepted the attestation for the supplied challenge under the enrolled key. -/
def Attested (hist : List (Event Op)) : Prop :=
  ∃ flag id bytes key now, cmd.operatorConfirmation.signedConfigFlag = some flag ∧
    cmd.challengeId = some id ∧
    ⟨.port (.keychainRetrieve keychainService RevealSecretCommand.accountOperatorAttestation),
      .ok bytes⟩ ∈ hist ∧
    keyOfSlice bytes = some key ∧ ⟨.port .now, now⟩ ∈ hist ∧
    verifyAttestation E flag id key now = .ok ()

/-- A challenge drawn by this call was dispatched, awaited and approved, in this order. -/
def OobApproved (hist : List (Event Op)) : Prop :=
  ∃ id challenge device resolution, challenge.challengeId = ⟨id⟩ ∧
    challenge.secretHandle = cmd.handle ∧
    List.Sublist [⟨.newUuid, id⟩, ⟨.port (.oobDispatch challenge device), .ok ()⟩,
      ⟨.port (.oobAwaitResolution ⟨id⟩ cmd.oobTimeout), .ok resolution⟩] hist ∧
    resolution.isApproved = true

/-- The vault was unsealed at entry, the operator confirmed, a required challenge was approved, the
device suffices, and the entry was committed. -/
structure Authorized (hist : List (Event Op)) : Prop where
  unsealed : hist.head? = some ⟨.identity .isUnsealed, true⟩
  confirmed : cmd.operatorConfirmation.slashCommand = true ∨ Attested E cmd hist
  oob : cmd.oobRequired = true → OobApproved cmd hist
  device : cmd.requiredDeviceClass.rank ≤ cmd.boundDeviceClass.rank
  audited : ∃ key, ⟨.auditCommit cmd.allow key, .ok ()⟩ ∈ hist

variable {E cmd}

theorem Attested.mono {h h' : List (Event Op)} (hp : h <+: h') (ha : Attested E cmd h) :
    Attested E cmd h' := by
  obtain ⟨flag, id, bytes, key, now, hflag, hid, hkey, hbytes, hnow, hver⟩ := ha
  exact ⟨flag, id, bytes, key, now, hflag, hid, hp.subset hkey, hbytes, hp.subset hnow, hver⟩

theorem OobApproved.mono {h h' : List (Event Op)} (hp : h <+: h') (ho : OobApproved cmd h) :
    OobApproved cmd h' := by
  obtain ⟨id, challenge, device, resolution, hid, hhandle, hsub, happ⟩ := ho
  exact ⟨id, challenge, device, resolution, hid, hhandle, hsub.trans hp.sublist, happ⟩

/-- A refusal gives no value. -/
theorem refuse_fails {α : Type} {h : List (Event Op)} {reason detail : String}
    {F : List (Event Op) → α → Prop} :
    Conforms history (cmd.refuse reason detail : Handler α).run h
      fun h' r => ∀ a, r = .ok a → F h' a := by
  have herr : ∀ (h' : List (Event Op)) (e : AppError) (a : α), Except.error e = .ok a → F h' a :=
    fun _ _ _ => nofun
  unfold RevealSecretCommand.refuse deny
  refine history_bind (F := fun _ _ => True) (wp_of_forall (fun _ _ => trivial) fun _ _ _ _ => trivial)
    (fun h' key _ _ => ?_) herr
  refine history_bind (F := fun _ _ => True) (wp_of_forall (fun _ _ => trivial) fun _ _ _ _ => trivial)
    (fun h' _ _ _ => ?_) herr
  exact fun a ha => nomatch ha

theorem requireUnsealed_history : Conforms history requireUnsealed.run []
    fun h' r => ∀ a, r = .ok a → h' = [⟨.identity .isUnsealed, true⟩] := by
  unfold requireUnsealed
  simp only [wp_except_bind, wp_call]
  refine ⟨trivial, ?_⟩
  rintro b _ ⟨-, rfl⟩
  cases b with
  | true => exact fun _ _ => rfl
  | false => exact fun a ha => absurd ha error_ne_ok

theorem attest_history {h : List (Event Op)} : Conforms history (cmd.attest E).run h
    fun h' r => ∀ a, r = .ok a → cmd.operatorConfirmation.slashConfirmed = true →
      cmd.operatorConfirmation.slashCommand = true ∨ Attested E cmd h' := by
  unfold RevealSecretCommand.attest
  split
  · next hflag =>
    intro a _ hc
    exact .inl (by simpa [OperatorConfirmation.slashConfirmed, hflag] using hc)
  · next flag hflag =>
    split_ifs with hslash
    · exact fun a _ _ => .inl hslash
    · simp only [wp_except_bind, wp_attempt, wp_orThrow, wp_call, wp_ofExcept]
      refine ⟨trivial, ?_⟩
      rintro bytes _ ⟨-, rfl⟩
      cases bytes with
      | error e => exact fun a ha => absurd ha error_ne_ok
      | ok bytes =>
        refine ⟨fun key hkey => ⟨fun id hid => ⟨trivial, ?_⟩, fun _ a ha => absurd ha error_ne_ok⟩,
          fun _ a ha => absurd ha error_ne_ok⟩
        rintro now _ ⟨-, rfl⟩
        refine ⟨fun a hver b _ _ => ?_, fun e _ a ha => absurd ha error_ne_ok⟩
        refine .inr ⟨flag, id, bytes, key, now, hflag, hid, ?_, hkey, ?_, hver⟩
        · simp [history]
        · simp [history]

theorem targetDevice_history {h : List (Event Op)} : Conforms history cmd.targetDevice.run h
    fun h' r => ∀ d, r = .ok d → h <+: h' := by
  exact history_grows.mono fun h' r hp _ _ => hp

/-- A challenge that ends without refusal was approved. -/
theorem challenge_history {h : List (Event Op)} : Conforms history (cmd.challenge E).run h
    fun h' r => ∀ a, r = .ok a → OobApproved cmd h' := by
  have herr : ∀ (h' : List (Event Op)) (e : AppError) (a : Unit),
      Except.error e = .ok a → OobApproved cmd h' := fun _ _ _ => nofun
  unfold RevealSecretCommand.challenge
  refine history_bind targetDevice_history (fun h₁ device _ _ => ?_) herr
  simp only [wp_except_bind, wp_call]
  refine ⟨trivial, ?_⟩
  rintro id _ ⟨-, rfl⟩
  refine ⟨trivial, ?_⟩
  rintro expiresAt _ ⟨-, rfl⟩
  refine ⟨trivial, ?_⟩
  rintro nonce _ ⟨-, rfl⟩
  refine ⟨trivial, ?_⟩
  rintro dispatched _ ⟨-, rfl⟩
  cases dispatched with
  | error e => exact refuse_fails
  | ok u =>
    simp only [wp_except_bind, wp_call]
    refine ⟨trivial, ?_⟩
    rintro resolution _ ⟨-, rfl⟩
    cases resolution with
    | error e => exact refuse_fails
    | ok resolution =>
      simp only
      split
      · exact refuse_fails
      · next happ =>
        split
        · exact refuse_fails
        · intro a _
          refine ⟨id, ⟨⟨id⟩, cmd.namespaceId, cmd.handle, cmd.sensitivity, cmd.oobChannel, expiresAt,
            nonce⟩, device, resolution, rfl, rfl, ?_, by simpa using happ⟩
          simp only [history, List.append_assoc, List.cons_append, List.nil_append]
          refine List.Sublist.trans ?_ (List.sublist_append_right _ _)
          exact .cons_cons _ (.cons _ (.cons _ (List.Sublist.refl _)))

/-- The evaluator sees the caller's confirmation, and a required challenge was approved. -/
theorem effectiveConfirmation_history {h : List (Event Op)} :
    Conforms history (cmd.effectiveConfirmation E).run h
      fun h' r => ∀ c, r = .ok c →
        c.slashConfirmed = cmd.operatorConfirmation.slashConfirmed ∧
          (cmd.oobRequired = true → OobApproved cmd h') := by
  unfold RevealSecretCommand.effectiveConfirmation
  split
  · refine history_bind challenge_history (fun h₁ _ _ happ => ?_) fun _ _ _ => nofun
    rintro c hc
    obtain rfl := Except.ok.inj hc
    exact ⟨rfl, fun _ => happ⟩
  · next hno =>
    rintro c hc
    obtain rfl := Except.ok.inj hc
    exact ⟨rfl, fun hreq => absurd hreq hno⟩

theorem evaluate_allow {c : OperatorConfirmation} {sensitivity oobThreshold : Sensitivity}
    {profile : SecurityProfile} {bound required : CompanionDeviceClass}
    (h : evaluate c sensitivity oobThreshold profile bound required = .allow) :
    c.slashConfirmed = true ∧ required.rank ≤ bound.rank := by
  unfold evaluate at h
  split_ifs at h with hslash _ hrank
  exact ⟨by simpa using hslash, by omega⟩

/-- A released plaintext has its entry committed. -/
theorem release_history {h : List (Event Op)} : Conforms history (cmd.release E).run h
    fun h' r => ∀ a, r = .ok a → ∃ key, ⟨.auditCommit cmd.allow key, .ok ()⟩ ∈ h' := by
  have hany : ∀ {α : Type} {x : Handler α} {h : List (Event Op)},
      Conforms history x.run h fun _ r => ∀ a, r = .ok a → True :=
    wp_of_forall (fun _ _ => trivial) fun _ _ _ _ => trivial
  have herr : ∀ (h' : List (Event Op)) (e : AppError) (a : Reply), Except.error e = .ok a →
      ∃ key, (⟨.auditCommit cmd.allow key, .ok ()⟩ : Event Op) ∈ h' := fun _ _ _ h => absurd h error_ne_ok
  unfold RevealSecretCommand.release
  refine history_bind hany (fun h₁ secret _ _ => ?_) herr
  refine history_bind hany (fun h₂ version _ _ => ?_) herr
  refine history_bind hany (fun h₃ plaintext _ _ => ?_) herr
  refine history_bind hany (fun h₄ key _ _ => ?_) herr
  simp only [auditCommit, wp_except_bind, wp_attempt]
  refine ⟨trivial, ?_⟩
  rintro r _ ⟨-, rfl⟩
  cases r with
  | error e => exact fun _ h => absurd h error_ne_ok
  | ok u => exact fun _ _ => ⟨key, by simp [history]⟩

/-- **A reveal that returns is authorized by its own history.** -/
theorem execute_history : Conforms history (cmd.execute E).run []
    fun h' r => ∀ a, r = .ok a → Authorized E cmd h' := by
  have herr : ∀ (h' : List (Event Op)) (e : AppError) (a : Reply), Except.error e = .ok a →
      Authorized E cmd h' := fun _ _ _ => nofun
  unfold RevealSecretCommand.execute
  refine history_bind requireUnsealed_history (fun h₁ _ _ hunsealed => ?_) herr
  refine history_bind attest_history (fun h₂ _ hp₂ hattest => ?_) herr
  refine history_bind effectiveConfirmation_history (fun h₃ c hp₃ hc => ?_) herr
  obtain ⟨hconf, hoob⟩ := hc
  split
  · exact refuse_fails
  · next hallow =>
    obtain ⟨hslash, hdevice⟩ := evaluate_allow hallow
    refine (release_history.and history_grows).mono ?_
    rintro h₄ r ⟨haudit, hp₄⟩ a ha
    refine ⟨?_, ?_, fun hreq => (hoob hreq).mono hp₄, hdevice, haudit a ha⟩
    · obtain ⟨rest, rfl⟩ := (hp₂.trans hp₃).trans hp₄
      rw [hunsealed]
      rfl
    · rw [hconf] at hslash
      exact (hattest hslash).imp_right (Attested.mono (hp₃.trans hp₄))

end Authorization

/-! ### The caller's `oob_ack` -/

/-- The same call with another `oob_ack`. -/
def RevealSecretCommand.withOobAck (cmd : RevealSecretCommand) (ack : Bool) : RevealSecretCommand :=
  { cmd with operatorConfirmation := { cmd.operatorConfirmation with oobAck := ack } }

/-- Where a challenge is required the confirmation that the evaluator sees does not depend on the
caller's `oob_ack`. -/
theorem effectiveConfirmation_withOobAck {E : Env} {cmd : RevealSecretCommand} (ack : Bool)
    (h : cmd.oobRequired = true) :
    (cmd.withOobAck ack).effectiveConfirmation E = cmd.effectiveConfirmation E := by
  have h' : (cmd.withOobAck ack).oobRequired = true := h
  unfold RevealSecretCommand.effectiveConfirmation
  rw [if_pos h, if_pos h']
  rfl

theorem execute_withOobAck {E : Env} {cmd : RevealSecretCommand} (ack : Bool)
    (h : cmd.oobRequired = true) : (cmd.withOobAck ack).execute E = cmd.execute E := by
  unfold RevealSecretCommand.execute
  rw [effectiveConfirmation_withOobAck ack h]
  rfl

/-! ### Runs -/

theorem mem_recorded {hist : List (Event Op)} {params : AppendParams} {key : Key}
    (h : ⟨.auditCommit params key, .ok ()⟩ ∈ hist) : params ∈ recorded hist :=
  List.mem_filterMap.mpr ⟨_, h, rfl⟩

/-- **Reveal authorization.**  Whatever the ports, the storage and the other clients do: a reveal
that returned a plaintext is authorized by its history, and against the agent's storage its `Allow`
entry is persisted.  Where a challenge is required the caller's `oob_ack` changes nothing. -/
theorem reveal_authorized (E : Env) (cmd : RevealSecretCommand) :
    (∀ (σ : Type) (S : System σ Op (Except AppError Reply)) (s₀ : σ)
      (c : Config σ Op (Except AppError Reply)), Reachable S unguarded s₀ c →
      ∀ t ∈ c.tasks, t.source = (cmd.execute E).run →
      ∀ plaintext, t.prog = .ret (.ok (.revealed plaintext)) → Authorized E cmd t.hist) ∧
    (∀ (starts : Prog Op (Except AppError Reply) → Prop) (s₀ : AppState)
      (c : Config AppState Op (Except AppError Reply)),
      Reachable (agentSystem E.toCrates starts) unguarded s₀ c →
      ∀ t ∈ c.tasks, t.source = (cmd.execute E).run →
      ∀ plaintext, t.prog = .ret (.ok (.revealed plaintext)) →
      ∃ e ∈ c.state.store.auditEntries, Records e cmd.allow) ∧
    (cmd.oobRequired = true → ∀ ack, (cmd.withOobAck ack).execute E = cmd.execute E) := by
  have hauth : ∀ (σ : Type) (S : System σ Op (Except AppError Reply)) (s₀ : σ)
      (c : Config σ Op (Except AppError Reply)), Reachable S unguarded s₀ c →
      ∀ t ∈ c.tasks, t.source = (cmd.execute E).run →
      ∀ plaintext, t.prog = .ret (.ok (.revealed plaintext)) → Authorized E cmd t.hist := by
    intro σ S s₀ c h t ht hsource plaintext hend
    obtain ⟨-, hconf⟩ := h.rule history
      (fun p h r => p = (cmd.execute E).run → ∀ a, r = .ok a → Authorized E cmd h)
      (fun _ _ => True) trivial
      (by
        intro p _
        by_cases hp : p = (cmd.execute E).run
        · subst hp
          exact execute_history.mono fun h r hr _ => hr
        · exact wp_of_forall (fun _ _ => trivial) fun h r he => absurd he hp)
      (fun _ => trivial) (fun _ _ _ _ _ => ⟨trivial, trivial⟩) (fun _ _ => trivial)
    have ht' := hconf t ht
    rw [hend, history_after] at ht'
    exact ht' hsource _ rfl
  refine ⟨hauth, ?_, fun h ack => execute_withOobAck ack h⟩
  intro starts s₀ c h t ht hsource plaintext hend
  obtain ⟨key, hkey⟩ := (hauth _ _ _ _ h t ht hsource plaintext hend).audited
  exact recorded_persisted h ht (mem_recorded hkey)

/-! ### A reveal behind a challenge -/

/-- A database secret of the sample namespace. -/
def sampleHandle : Handle := ⟨sampleLabel, .database, sampleSecretName⟩

/-- The identifier number `n`. -/
def sampleUuid (n : UInt8) : Uuid := Vector.replicate 16 n

/-- What the sample cipher makes of a plaintext. -/
def sampleBlob (dek : Key) (plaintext : List UInt8) : PrivateBlob :=
  ⟨dek.toList ++ plaintext, Vector.replicate 24 0, Vector.replicate 16 0, handleAad sampleHandle⟩

/-- A version of the sample secret. -/
def sampleVersion (n : UInt8) (blob : PrivateBlob) : SecretVersion :=
  ⟨⟨sampleUuid n⟩, ⟨sampleUuid 2⟩, n.toUInt32, blob, 1, epoch, none⟩

/-- The row of the sample secret. -/
def sampleRow (current : UInt8) : SecretRow :=
  ⟨⟨sampleUuid 2⟩, ⟨sampleUuid 1⟩, sampleHandle, .database, .high, [], ⟨none, false⟩, epoch,
    ⟨sampleUuid current⟩⟩

/-- A vault with one secret. -/
def sampleVault (current : UInt8) (versions : List SecretVersion) : AppState := { sampleState with
  issued := [sampleUuid 2, sampleUuid 1]
  store := { Store.empty with
    namespaces := [sampleNamespace]
    policies := [.balanced sampleNamespace.id]
    secrets := [sampleRow current]
    versions := versions } }

/-- A reveal that was confirmed by a slash command. -/
def sampleReveal : RevealSecretCommand where
  namespaceId := ⟨sampleUuid 1⟩
  handle := sampleHandle
  operatorConfirmation := ⟨true, false, none⟩
  challengeId := none
  sensitivity := .high
  oobThreshold := .high
  securityProfile := .balanced
  dekBytes := sampleKey
  companionDevice := none
  oobChannel := .terminalPrompt
  oobTimeout := 120
  requiredDeviceClass := .software

/-- A slash-confirmed reveal of a secret of high sensitivity, its challenge approved. -/
theorem approved_reveal_authorized : ∃ (c : Config AppState Op (Except AppError Reply))
    (t : Task Op (Except AppError Reply)),
    Reachable (agentSystem sampleEnv.toCrates fun p => p = (sampleReveal.execute sampleEnv).run)
      unguarded (sampleVault 1 [sampleVersion 1 (sampleBlob sampleKey [1, 2, 3])]) c ∧
    t ∈ c.tasks ∧ t.source = (sampleReveal.execute sampleEnv).run ∧
    t.prog = .ret (.ok (.revealed [1, 2, 3])) ∧ sampleReveal.oobRequired = true ∧
    Authorized sampleEnv sampleReveal t.hist ∧
    (∃ e ∈ c.state.store.auditEntries, Records e sampleReveal.allow) ∧
    (sampleReveal.withOobAck true).execute sampleEnv = sampleReveal.execute sampleEnv := by
  let version := sampleVersion 1 (sampleBlob sampleKey [1, 2, 3])
  let s₀ := sampleVault 1 [version]
  let s₁ : AppState := { s₀ with issued := sampleUuid 3 :: s₀.issued }
  let s₂ : AppState := { s₁ with issued := sampleUuid 4 :: s₁.issued }
  have hversions : s₂.store.loadVersionsForSecret (sampleRow 1).id = [version] := by
    simp [Store.loadVersionsForSecret, s₂, s₁, s₀, sampleVault, version, sampleVersion, sampleRow]
  obtain ⟨s₃, hx, -⟩ := first_commit sampleCrates sampleReveal.allow sampleKey (sampleCall 1).draw
    s₂ rfl
  have h₀ := Reachable.here (agentSystem sampleEnv.toCrates
    fun p => p = (sampleReveal.execute sampleEnv).run) unguarded s₀
  have h₁ := h₀.start _ rfl
  have h₂ := h₁.act 0 rfl true s₀ rfl trivial
  have h₃ := h₂.act 0 rfl (sampleUuid 3) s₁ ⟨by decide, rfl⟩ trivial
  have h₄ := h₃.act 0 rfl epoch s₁ rfl trivial
  have h₅ := h₄.act 0 rfl (sampleUuid 4) s₂ ⟨by decide, rfl⟩ trivial
  have h₆ := h₅.act 0 rfl epoch s₂ rfl trivial
  have h₇ := h₆.act 0 rfl sampleKey s₂ rfl trivial
  have h₈ := h₇.act 0 rfl (.ok ()) s₂ rfl trivial
  have h₉ := h₈.act 0 rfl (.ok ⟨⟨sampleUuid 4⟩, .approved, none, none⟩) s₂ rfl trivial
  have h₁₀ := h₉.act 0 rfl (.ok (some (sampleRow 1))) s₂ ⟨rfl, none, rfl⟩ trivial
  have h₁₁ := h₁₀.act 0 rfl (.ok [version]) s₂ ⟨rfl, none, by rw [← hversions]; rfl⟩ trivial
  have h₁₂ := h₁₁.act 0 rfl (some sampleKey) s₂ ⟨rfl, rfl⟩ trivial
  have h₁₃ := h₁₂.act 0 rfl (.ok ()) s₃ ⟨_, _, hx⟩ trivial
  obtain ⟨hauth, hentry, hack⟩ := reveal_authorized sampleEnv sampleReveal
  refine ⟨_, _, h₁₃, List.mem_cons_self, rfl, rfl, rfl, ?_, ?_, hack rfl true⟩
  · exact hauth _ _ _ _ h₁₃ _ List.mem_cons_self rfl [1, 2, 3] rfl
  · exact hentry _ _ _ h₁₃ _ List.mem_cons_self rfl [1, 2, 3] rfl

end MerkleVault.App.Reveal
