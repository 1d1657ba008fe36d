import MerkleVault.Socket.Handlers

/-! # The Registry of Companion Devices

A pairing stores a device under a fresh identifier.  A revocation reads the devices, and stores its
copy of one again with the time of the revocation; the store replaces the whole row, so that what
another client did to the row in between is overwritten.  Pairings, revocations, listings and reveals
run in any interleaving.

* `Errand`: what a client has drawn, read and stored;
* `benign_of_reachable`: each store enrolls a fresh identifier or revokes a row that it copies;
* `devices_kept`: rows keep what they were enrolled with, and stay revoked. -/

namespace MerkleVault.Socket.Devices

open MerkleVault.Types MerkleVault.External MerkleVault.Lib.Program MerkleVault.Audit.Writer
open MerkleVault.Sqlite.Tables MerkleVault.App.Context MerkleVault.App.Lifecycle
open MerkleVault.Socket.Gate MerkleVault.Socket.Handlers MerkleVault.App.Reveal
open MerkleVault.App.AuditDurability MerkleVault.App.IdentitySections MerkleVault.Audit.Integrity

/-! ### Actions -/

/-- Actions on the vault, and the write of a device. -/
inductive DeviceOp : Type → Type 1
  | app {β : Type} (op : Op β) : DeviceOp β
  | putCompanionDevice (device : CompanionDevice) : DeviceOp (Except StorageError Unit)

/-- `INSERT INTO companion_devices ... ON CONFLICT(device_id) DO UPDATE`. -/
def upsertDevice (devices : List CompanionDevice) (device : CompanionDevice) : List CompanionDevice :=
  if devices.any fun d => d.deviceId = device.deviceId then
    devices.map fun d => if d.deviceId = device.deviceId then device else d
  else devices ++ [device]

/-- The row of a device: its times are texts at microseconds. -/
def storedDevice (device : CompanionDevice) : CompanionDevice :=
  { device with
    enrolledAt := device.enrolledAt.atMicros
    revokedAt := device.revokedAt.map (·.atMicros) }

/-- The vault with other devices. -/
def withDevices (s : AppState) (devices : List CompanionDevice) : AppState :=
  { s with store := { s.store with companionDevices := devices } }

/-- What one action does; a failed write of a device changes nothing. -/
def deviceExec (K : Crates) {β : Type} : DeviceOp β → AppState → β → AppState → Prop
  | .app op, s, r, s' => exec K op s r s'
  | .putCompanionDevice device, s, r, s' =>
      r = .ok () ∧ s' = withDevices s (upsertDevice s.store.companionDevices (storedDevice device)) ∨
        s' = s ∧ ∃ e, r = .error e

/-! ### The commands -/

/-- What a client gets. -/
inductive DeviceReply
  | paired (device : CompanionDevice)
  | revoked (deviceId : Uuid) (revokedAt : Rfc3339Timestamp)
  | listed (devices : List CompanionDevice)
  | response (response : Response)

/-- A program over vault and devices. -/
abbrev DeviceHandler (α : Type) := Cmd DeviceOp AppError α

/-- A command of the application. -/
def inContext {α : Type} (x : Handler α) : DeviceHandler α := embedded DeviceOp.app id x

/-- `PairDeviceCommand`. -/
structure PairDeviceCommand where
  namespaceId : NamespaceId
  ed25519Pubkey : Key
  x25519Pubkey : Key
  deviceClass : CompanionDeviceClass
  attestationChain : List UInt8

/-- The device that a pairing enrolls. -/
def PairDeviceCommand.device (cmd : PairDeviceCommand) (deviceId : Uuid) (now : Rfc3339Timestamp) :
    CompanionDevice :=
  ⟨deviceId, cmd.ed25519Pubkey, cmd.x25519Pubkey, cmd.deviceClass, cmd.attestationChain, now, none⟩

/-- A fresh id and the time of the pairing, then the write, then the entry. -/
def PairDeviceCommand.execute (cmd : PairDeviceCommand) : DeviceHandler DeviceReply := do
  inContext requireUnsealed
  let deviceId ← call (.app .newUuid)
  let enrolledAt ← call (.app (.port .now))
  let device := cmd.device deviceId enrolledAt
  attempt .storage (.putCompanionDevice device)
  let hmacKey ← inContext requireHmacKey
  inContext (auditCommit { op := .put, outcome := .allow, namespaceId := cmd.namespaceId
                           callerProgram := agent } hmacKey)
  return .paired device

/-- `RevokeDeviceCommand`. -/
structure RevokeDeviceCommand where
  namespaceId : NamespaceId
  deviceId : Uuid

variable (E : Env)

/-- A device that is unknown or revoked is refused, else it is written with the time. -/
def RevokeDeviceCommand.execute (cmd : RevokeDeviceCommand) : DeviceHandler DeviceReply := do
  inContext requireUnsealed
  let devices ← inContext (query .listCompanionDevices)
  let device ← orThrow .notFound (devices.find? fun d => d.deviceId = cmd.deviceId)
  if device.revokedAt.isSome then
    throw (.invalidInput ("device " ++ E.hyphenated cmd.deviceId ++ " is already revoked")) else
  let revokedAt ← call (.app (.port .now))
  attempt .storage (.putCompanionDevice { device with revokedAt := some revokedAt })
  let hmacKey ← inContext requireHmacKey
  inContext (auditCommit { op := .doctor, outcome := .allow, namespaceId := cmd.namespaceId
                           callerProgram := agent } hmacKey)
  return .revoked cmd.deviceId revokedAt

/-- `ListDevicesCommand`. -/
structure ListDevicesCommand where
  namespaceId : NamespaceId

/-- The devices of the store, with an entry for the listing. -/
def ListDevicesCommand.execute (cmd : ListDevicesCommand) : DeviceHandler DeviceReply := do
  inContext requireUnsealed
  let devices ← inContext (query .listCompanionDevices)
  let hmacKey ← inContext requireHmacKey
  inContext (auditCommit { op := .list, outcome := .allow, namespaceId := cmd.namespaceId
                           callerProgram := agent } hmacKey)
  return .listed devices

/-- `POST /v1/reveal`. -/
def revealOver (peer : PeerCredentials) (q : RevealRequest) : Cmd DeviceOp Problem DeviceReply := do
  return .response (← embedded DeviceOp.app id (reveal E peer q))

/-! ### The clients -/

/-- Actions of the context. -/
def contextual {β : Type} : DeviceOp β → Prop
  | .app _ => True
  | .putCompanionDevice _ => False

/-- Pairings, revocations, listings and reveals, and whatever stores no device. -/
inductive DeviceClient : Prog DeviceOp (Except Problem DeviceReply) → Prop
  | pairs (cmd : PairDeviceCommand) : DeviceClient (withError Problem.app cmd.execute).run
  | revokes (cmd : RevokeDeviceCommand) : DeviceClient (withError Problem.app (cmd.execute E)).run
  | lists (cmd : ListDevicesCommand) : DeviceClient (withError Problem.app cmd.execute).run
  | reveals (peer : PeerCredentials) (q : RevealRequest) : DeviceClient (revealOver E peer q).run
  | others (p : Prog DeviceOp (Except Problem DeviceReply)) (h : Only contextual p) :
      DeviceClient p

/-- The clients of the device registry, in any order, with restarts. -/
def deviceSystem : System AppState DeviceOp (Except Problem DeviceReply) where
  exec := deviceExec E.toCrates
  starts := DeviceClient E
  restart s s' := s' = rebooted s

/-- The registry, the clients under way and what they have returned. -/
abbrev DeviceConfig := Config AppState DeviceOp (Except Problem DeviceReply)

/-! ### Rows -/

/-- What a row becomes: the same device, enrolled at the same microsecond, and revoked if it was. -/
structure Succeeds (d d' : CompanionDevice) : Prop where
  deviceId : d'.deviceId = d.deviceId
  ed25519Pubkey : d'.ed25519Pubkey = d.ed25519Pubkey
  x25519Pubkey : d'.x25519Pubkey = d.x25519Pubkey
  deviceClass : d'.deviceClass = d.deviceClass
  attestationChain : d'.attestationChain = d.attestationChain
  enrolledAt : d'.enrolledAt.atMicros = d.enrolledAt.atMicros
  revoked : d.revokedAt.isSome = true → d'.revokedAt.isSome = true

theorem Succeeds.refl (d : CompanionDevice) : Succeeds d d := ⟨rfl, rfl, rfl, rfl, rfl, rfl, id⟩

theorem Succeeds.trans {d d' d'' : CompanionDevice} (h : Succeeds d d') (h' : Succeeds d' d'') :
    Succeeds d d'' where
  deviceId := h'.deviceId.trans h.deviceId
  ed25519Pubkey := h'.ed25519Pubkey.trans h.ed25519Pubkey
  x25519Pubkey := h'.x25519Pubkey.trans h.x25519Pubkey
  deviceClass := h'.deviceClass.trans h.deviceClass
  attestationChain := h'.attestationChain.trans h.attestationChain
  enrolledAt := h'.enrolledAt.trans h.enrolledAt
  revoked hd := h'.revoked (h.revoked hd)

theorem succeeds_stored (device : CompanionDevice) : Succeeds device (storedDevice device) where
  deviceId := rfl
  ed25519Pubkey := rfl
  x25519Pubkey := rfl
  deviceClass := rfl
  attestationChain := rfl
  enrolledAt := device.enrolledAt.atMicros_atMicros
  revoked h := by rwa [storedDevice, Option.isSome_map]

/-- A row whose time of revocation was set. -/
theorem succeeds_revoked (d : CompanionDevice) (revokedAt : Rfc3339Timestamp) :
    Succeeds d { d with revokedAt := some revokedAt } := ⟨rfl, rfl, rfl, rfl, rfl, rfl, fun _ => rfl⟩

/-- Every row is still there. -/
def Continues (devices devices' : List CompanionDevice) : Prop :=
  ∀ d ∈ devices, ∃ d' ∈ devices', Succeeds d d'

theorem Continues.refl (devices : List CompanionDevice) : Continues devices devices :=
  fun d hd => ⟨d, hd, .refl d⟩

theorem Continues.trans {ds ds' ds'' : List CompanionDevice} (h : Continues ds ds')
    (h' : Continues ds' ds'') : Continues ds ds'' := by
  intro d hd
  obtain ⟨d', hd', hs⟩ := h d hd
  obtain ⟨d'', hd'', hs'⟩ := h' d' hd'
  exact ⟨d'', hd'', hs.trans hs'⟩

/-- The rows have different identifiers, all drawn. -/
structure Keyed (s : AppState) : Prop where
  distinct : (s.store.companionDevices.map (·.deviceId)).Nodup
  issued : ∀ d ∈ s.store.companionDevices, d.deviceId ∈ s.issued

/-- A store of a device: under a fresh identifier, or a revocation of the row that it copies. -/
inductive Fits (s : AppState) (device : CompanionDevice) : Prop
  | enrolls (hissued : device.deviceId ∈ s.issued)
      (hfresh : ∀ d ∈ s.store.companionDevices, d.deviceId ≠ device.deviceId)
  | revokes (d : CompanionDevice) (hd : d ∈ s.store.companionDevices) (hsame : Succeeds d device)
      (hrevoked : device.revokedAt.isSome = true)

/-- The row that is written fits as the device does. -/
theorem Fits.stored {s : AppState} {device : CompanionDevice} (h : Fits s device) :
    Fits s (storedDevice device) := by
  cases h with
  | enrolls hissued hfresh => exact .enrolls hissued hfresh
  | revokes d hd hsame hrevoked =>
    have hstored := succeeds_stored device
    exact .revokes d hd (hsame.trans hstored) (hstored.revoked hrevoked)

variable {E}

theorem any_deviceId {devices : List CompanionDevice} {id : Uuid} :
    (devices.any fun d => d.deviceId = id) = true ↔ ∃ d ∈ devices, d.deviceId = id := by
  simp

theorem eq_of_deviceId {devices : List CompanionDevice}
    (hdistinct : (devices.map (·.deviceId)).Nodup) {d d' : CompanionDevice} (hd : d ∈ devices)
    (hd' : d' ∈ devices) (h : d.deviceId = d'.deviceId) : d = d' :=
  List.inj_on_of_nodup_map hdistinct hd hd' h

theorem mem_upsertDevice {devices : List CompanionDevice} {device d : CompanionDevice}
    (h : d ∈ upsertDevice devices device) : d ∈ devices ∨ d = device := by
  unfold upsertDevice at h
  split_ifs at h
  · obtain ⟨d', hd', rfl⟩ := List.mem_map.mp h
    split_ifs
    · exact .inr rfl
    · exact .inl hd'
  · rcases List.mem_append.mp h with h | h
    · exact .inl h
    · exact .inr (List.mem_singleton.mp h)

/-- **A store that fits** keeps the rows, and leaves the device among them. -/
theorem upsert_fits {s : AppState} {device : CompanionDevice} (h : Keyed s) (hfits : Fits s device) :
    Keyed (withDevices s (upsertDevice s.store.companionDevices device)) ∧
      Continues s.store.companionDevices (upsertDevice s.store.companionDevices device) ∧
      device ∈ upsertDevice s.store.companionDevices device := by
  cases hfits with
  | enrolls hissued hfresh =>
    have hnone : (s.store.companionDevices.any fun d => d.deviceId = device.deviceId) = false := by
      rw [Bool.eq_false_iff, Ne, any_deviceId]
      rintro ⟨d, hd, he⟩
      exact hfresh d hd he
    have heq : upsertDevice s.store.companionDevices device = s.store.companionDevices ++ [device] := by
      unfold upsertDevice
      rw [if_neg (by rw [hnone]; exact Bool.false_ne_true)]
    rw [heq]
    refine ⟨⟨?_, ?_⟩, fun d hd => ⟨d, List.mem_append_left _ hd, .refl d⟩, by simp⟩
    · show ((s.store.companionDevices ++ [device]).map (·.deviceId)).Nodup
      rw [List.map_append, List.nodup_append]
      refine ⟨h.distinct, List.nodup_singleton _, ?_⟩
      intro a ha b hb
      obtain ⟨d, hd, rfl⟩ := List.mem_map.mp ha
      rw [List.map_singleton, List.mem_singleton] at hb
      rw [hb]
      exact hfresh d hd
    · intro d hd
      rcases List.mem_append.mp hd with hd | hd
      · exact h.issued d hd
      · rw [List.mem_singleton.mp hd]
        exact hissued
  | revokes d₀ hd₀ hsame hrevoked =>
    have hid := hsame.deviceId
    have hsome : (s.store.companionDevices.any fun d => d.deviceId = device.deviceId) = true :=
      any_deviceId.mpr ⟨d₀, hd₀, hid.symm⟩
    have heq : upsertDevice s.store.companionDevices device = s.store.companionDevices.map
        fun d => if d.deviceId = device.deviceId then device else d := by
      unfold upsertDevice
      rw [if_pos hsome]
    have hids : (upsertDevice s.store.companionDevices device).map (·.deviceId) =
        s.store.companionDevices.map (·.deviceId) := by
      rw [heq, List.map_map]
      refine List.map_congr_left fun d _ => ?_
      simp only [Function.comp_apply]
      split_ifs with he
      · exact he.symm
      · rfl
    refine ⟨⟨?_, ?_⟩, ?_, ?_⟩
    · show ((upsertDevice s.store.companionDevices device).map (·.deviceId)).Nodup
      rw [hids]
      exact h.distinct
    · intro d hd
      have hmem : d.deviceId ∈ s.store.companionDevices.map (·.deviceId) := by
        rw [← hids]
        exact List.mem_map_of_mem hd
      obtain ⟨d', hd', he⟩ := List.mem_map.mp hmem
      rw [← he]
      exact h.issued d' hd'
    · intro d hd
      rw [heq]
      refine ⟨_, List.mem_map_of_mem hd, ?_⟩
      split_ifs with he
      · -- The row with the identifier is the one that was copied.
        obtain rfl := eq_of_deviceId h.distinct hd hd₀ (he.trans hid)
        exact hsame
      · exact .refl d
    · rw [heq]
      refine List.mem_map.mpr ⟨d₀, hd₀, ?_⟩
      rw [if_pos hid.symm]

theorem apply_devices {w : Write} {st st' : Store} (h : w.apply st = .ok st') :
    st'.companionDevices = st.companionDevices := by
  cases w with
  | putSecret secret =>
    obtain ⟨st₁, vs, h₁, -, rfl⟩ := putSecret_ok h
    rw [upsertSecretRow_ok h₁]
  | deleteSecret id =>
    simp only [Write.apply, Store.deleteSecret] at h
    split_ifs at h
    obtain rfl := Except.ok.inj h
    rfl
  | putNamespace ns =>
    simp only [Write.apply, Store.putNamespace] at h
    split_ifs at h <;> obtain rfl := Except.ok.inj h <;> rfl
  | putNamespacePolicy policy =>
    simp only [Write.apply, Store.putNamespacePolicy] at h
    split_ifs at h <;> obtain rfl := Except.ok.inj h <;> rfl

/-- The actions of the context leave the rows, and forget no identifier. -/
theorem exec_rows {K : Crates} {β : Type} {op : Op β} {s s' : AppState} {r : β}
    (hx : exec K op s r s') : s'.store.companionDevices = s.store.companionDevices ∧
      s.issued ⊆ s'.issued := by
  have hsame : ∀ {a : AppState}, s' = a → a.store.companionDevices = s.store.companionDevices →
      a.issued = s.issued → s'.store.companionDevices = s.store.companionDevices ∧
        s.issued ⊆ s'.issued := by
    rintro a rfl hrows hissued
    exact ⟨hrows, by rw [hissued]; exact List.Subset.refl _⟩
  cases op with
  | identity o => exact hsame (Prod.mk.inj hx).2 rfl rfl
  | readHmacKey => exact hsame hx.2 rfl rfl
  | writeHmacKey key => exact hsame hx rfl rfl
  | auditCommit params key =>
    obtain ⟨draw, fault, hx⟩ := hx
    exact hsame (auditCommitSection_eq hx) rfl rfl
  | installHead p => exact hsame hx rfl rfl
  | query q => exact hsame hx.1 rfl rfl
  | write w =>
    obtain ⟨fault, hx⟩ := hx
    rcases writeSection_eq hx with ⟨-, store, hstore, hs⟩ | ⟨-, hs⟩
    · exact hsame hs (apply_devices hstore) rfl
    · exact hsame hs rfl rfl
  | newUuid =>
    obtain ⟨-, rfl⟩ := hx
    exact ⟨rfl, List.subset_cons_self _ _⟩
  | registerUseToken key token => exact hsame hx rfl rfl
  | consumeUseToken key handle =>
    obtain ⟨now, hx⟩ := hx
    exact hsame (consumeUseTokenSection_eq hx) rfl rfl
  | port p => exact hsame hx rfl rfl

/-! ### What a client knows -/

/-- The identifiers that a client drew, the rows that it read, and those that it stored. -/
structure Errand where
  drawn : List Uuid
  listing : List CompanionDevice
  stored : List CompanionDevice

/-- An enrollment under a drawn identifier, or a revocation of a row that was read. -/
def Errand.Wants (m : Errand) (device : CompanionDevice) : Prop :=
  device.deviceId ∈ m.drawn ∧ (∀ d ∈ m.stored, d.deviceId ≠ device.deviceId) ∨
    ∃ d ∈ m.listing, Succeeds d device ∧ device.revokedAt.isSome = true

/-- What a query adds. -/
def Errand.listed {β : Type} (m : Errand) : Query β → Except StorageError β → Errand
  | .listCompanionDevices, r => match r with
    | .ok devices => { m with listing := devices }
    | .error _ => m
  | _, _ => m

/-- What an action of a command adds. -/
def Errand.noted {β : Type} (m : Errand) : Op β → β → Errand
  | .newUuid, id => { m with drawn := id :: m.drawn }
  | .query q, r => m.listed q r
  | _, _ => m

/-- What a write of a device adds. -/
def Errand.put (m : Errand) (device : CompanionDevice) : Except StorageError Unit → Errand
  | .ok () => { m with stored := device :: m.stored }
  | .error _ => m

/-- A device is written only under a fresh id, or over one that was listed. -/
def errand : Monitor DeviceOp Errand where
  init := ⟨[], [], []⟩
  allowed
    | _, .app _ => True
    | m, .putCompanionDevice device => m.Wants device
  expects _ _ _ := True
  next
    | m, .app op, r => m.noted op r
    | m, .putCompanionDevice device, r => m.put device r

/-- What the clients know is true of the rows. -/
structure Known (s : AppState) (ms : List Errand) : Prop where
  keyed : Keyed s
  listing : ∀ m ∈ ms, Continues m.listing s.store.companionDevices
  stored : ∀ m ∈ ms, Continues m.stored s.store.companionDevices
  drawn : ∀ m ∈ ms, ∀ id ∈ m.drawn, id ∈ s.issued ∧
    ((∃ d ∈ m.stored, d.deviceId = id) ∨ ∀ d ∈ s.store.companionDevices, d.deviceId ≠ id)
  apart : ∀ (i j : ℕ) (m m' : Errand) (id : Uuid), ms[i]? = some m → ms[j]? = some m' →
    id ∈ m.drawn → id ∈ m'.drawn → i = j

section Steps

variable {s s' : AppState} {ms : List Errand} {i : ℕ} {m m' : Errand}

/-- **What a client wants to store fits.** -/
theorem Known.fits (h : Known s ms) (hm : m ∈ ms) {device : CompanionDevice} (hwants : m.Wants device) :
    Fits s device := by
  rcases hwants with ⟨hdrawn, hnew⟩ | ⟨d, hd, hsame, hrevoked⟩
  · obtain ⟨hissued, ⟨d, hd, he⟩ | hfresh⟩ := h.drawn m hm _ hdrawn
    · exact absurd he (hnew d hd)
    · exact .enrolls hissued hfresh
  · obtain ⟨d', hd', hs⟩ := h.listing m hm d hd
    refine .revokes d' hd' ?_ hrevoked
    -- The row is the one that was read, with what it shows at least.
    exact {
      deviceId := hsame.deviceId.trans hs.deviceId.symm
      ed25519Pubkey := hsame.ed25519Pubkey.trans hs.ed25519Pubkey.symm
      x25519Pubkey := hsame.x25519Pubkey.trans hs.x25519Pubkey.symm
      deviceClass := hsame.deviceClass.trans hs.deviceClass.symm
      attestationChain := hsame.attestationChain.trans hs.attestationChain.symm
      enrolledAt := hsame.enrolledAt.trans hs.enrolledAt.symm
      revoked := fun _ => hrevoked }

/-- The client that stepped learned nothing but what is true, and drew nothing that was drawn. -/
theorem Known.step (h : Known s ms) (hi : ms[i]? = some m) (hkeyed : Keyed s')
    (hissued : s.issued ⊆ s'.issued)
    (hrows : Continues s.store.companionDevices s'.store.companionDevices)
    (hids : ∀ d' ∈ s'.store.companionDevices, (∃ d ∈ s.store.companionDevices, d.deviceId = d'.deviceId) ∨
      d'.deviceId ∈ m.drawn ∧ ∃ d ∈ m'.stored, d.deviceId = d'.deviceId)
    (hlisting : Continues m'.listing s'.store.companionDevices)
    (hstored : Continues m'.stored s'.store.companionDevices) (hgrows : m.stored ⊆ m'.stored)
    (hdrawn : ∀ id ∈ m'.drawn, id ∈ m.drawn ∨ id ∉ s.issued ∧ id ∈ s'.issued) :
    Known s' (ms.set i m') := by
  have hm := List.mem_of_getElem? hi
  refine ⟨hkeyed, ?_, ?_, ?_, ?_⟩
  · intro mj hmj
    rcases List.mem_or_eq_of_mem_set hmj with hmj | rfl
    · exact (h.listing mj hmj).trans hrows
    · exact hlisting
  · intro mj hmj
    rcases List.mem_or_eq_of_mem_set hmj with hmj | rfl
    · exact (h.stored mj hmj).trans hrows
    · exact hstored
  · intro mj hmj id hid
    obtain ⟨j, hj⟩ := List.getElem?_of_mem hmj
    rcases getElem?_set_some hj with ⟨rfl, rfl⟩ | ⟨hne, hj⟩
    · rcases hdrawn id hid with hold | ⟨hnew, hnew'⟩
      · obtain ⟨hin, hplace⟩ := h.drawn m hm id hold
        refine ⟨hissued hin, ?_⟩
        by_cases hput : ∃ d ∈ mj.stored, d.deviceId = id
        · exact .inl hput
        · refine .inr fun d' hd' he => ?_
          rcases hids d' hd' with ⟨d, hd, hsame⟩ | ⟨-, d, hd, hsame⟩
          · rcases hplace with ⟨d₀, hd₀, he₀⟩ | hfresh
            · exact hput ⟨d₀, hgrows hd₀, he₀⟩
            · exact hfresh d hd (hsame.trans he)
          · exact hput ⟨d, hd, hsame.trans he⟩
      · refine ⟨hnew', .inr fun d' hd' he => hnew ?_⟩
        rcases hids d' hd' with ⟨d, hd, hsame⟩ | ⟨hd, -⟩
        · rw [← he, ← hsame]
          exact h.keyed.issued d hd
        · rw [← he]
          exact (h.drawn m hm _ hd).1
    · obtain ⟨hin, hplace⟩ := h.drawn mj (List.mem_of_getElem? hj) id hid
      refine ⟨hissued hin, hplace.imp_right fun hfresh d' hd' he => ?_⟩
      rcases hids d' hd' with ⟨d, hd, hsame⟩ | ⟨hd, -⟩
      · exact hfresh d hd (hsame.trans he)
      · rw [he] at hd
        exact hne (h.apart j i mj m id hj hi hid hd)
  · -- What was drawn just now was drawn by nobody before.
    have hother : ∀ (k : ℕ) (mk : Errand) (id : Uuid), k ≠ i → ms[k]? = some mk → id ∈ mk.drawn →
        id ∉ m'.drawn := by
      intro k mk id hne hk hidk hid
      rcases hdrawn id hid with hold | ⟨hnew, -⟩
      · exact hne (h.apart k i mk m id hk hi hidk hold)
      · exact hnew (h.drawn mk (List.mem_of_getElem? hk) id hidk).1
    intro j k mj mk id hj hk hidj hidk
    rcases getElem?_set_some hj with ⟨rfl, rfl⟩ | ⟨hnej, hj'⟩
    · rcases getElem?_set_some hk with ⟨rfl, -⟩ | ⟨hnek, hk'⟩
      · rfl
      · exact absurd hidj (hother k mk id hnek hk' hidk)
    · rcases getElem?_set_some hk with ⟨rfl, rfl⟩ | ⟨-, hk'⟩
      · exact absurd hidk (hother j mj id hnej hj' hidj)
      · exact h.apart j k mj mk id hj' hk' hidj hidk

theorem noted_eq {K : Crates} {β : Type} {op : Op β} {r : β} (hx : exec K op s r s') :
    (m.noted op r).stored = m.stored ∧
      ((m.noted op r).listing = m.listing ∨ (m.noted op r).listing = s.store.listCompanionDevices) ∧
      ∀ id ∈ (m.noted op r).drawn, id ∈ m.drawn ∨ id ∉ s.issued ∧ id ∈ s'.issued := by
  cases op with
  | newUuid =>
    obtain ⟨hnew, rfl⟩ := hx
    refine ⟨rfl, .inl rfl, fun id hid => ?_⟩
    rcases List.mem_cons.mp hid with rfl | hid
    · exact .inr ⟨hnew, List.mem_cons_self⟩
    · exact .inl hid
  | query q =>
    obtain ⟨-, fault, hr⟩ := hx
    cases q with
    | listCompanionDevices =>
      subst hr
      cases fault with
      | some e => exact ⟨rfl, .inl rfl, fun id hid => .inl hid⟩
      | none => exact ⟨rfl, .inr rfl, fun id hid => .inl hid⟩
    | _ => exact ⟨rfl, .inl rfl, fun id hid => .inl hid⟩
  | _ => exact ⟨rfl, .inl rfl, fun id hid => .inl hid⟩

/-- A step of the context. -/
theorem Known.app {K : Crates} {β : Type} {op : Op β} {r : β} (h : Known s ms)
    (hi : ms[i]? = some m) (hx : exec K op s r s') : Known s' (ms.set i (m.noted op r)) := by
  have hm := List.mem_of_getElem? hi
  obtain ⟨hrows, hissued⟩ := exec_rows hx
  obtain ⟨hstored, hlisting, hdrawn⟩ := noted_eq (m := m) hx
  refine h.step hi ⟨?_, ?_⟩ hissued ?_ ?_ ?_ ?_ ?_ hdrawn
  · rw [hrows]
    exact h.keyed.distinct
  · rw [hrows]
    exact fun d hd => hissued (h.keyed.issued d hd)
  · rw [hrows]
    exact .refl _
  · rw [hrows]
    exact fun d hd => .inl ⟨d, hd, rfl⟩
  · rw [hrows]
    rcases hlisting with hlisting | hlisting
    · rw [hlisting]
      exact h.listing m hm
    · rw [hlisting]
      exact fun d hd => ⟨d, mem_listCompanionDevices.mp hd, .refl d⟩
  · rw [hrows, hstored]
    exact h.stored m hm
  · rw [hstored]
    exact List.Subset.refl _

/-- The store of a device. -/
theorem Known.put (h : Known s ms) (hi : ms[i]? = some m) {device : CompanionDevice}
    {r : Except StorageError Unit} {K : Crates} (hwants : m.Wants device)
    (hx : deviceExec K (.putCompanionDevice device) s r s') :
    (r = .ok () → Fits s device) ∧ Known s' (ms.set i (m.put device r)) := by
  have hm := List.mem_of_getElem? hi
  have hfits := h.fits hm hwants
  refine ⟨fun _ => hfits, ?_⟩
  rcases hx with ⟨rfl, rfl⟩ | ⟨rfl, e, rfl⟩
  · obtain ⟨hkeyed, hrows, hin⟩ := upsert_fits h.keyed hfits.stored
    refine h.step hi hkeyed (List.Subset.refl _) hrows ?_ ((h.listing m hm).trans hrows) ?_
      (List.subset_cons_self _ _) fun id hid => .inl hid
    · intro d' hd'
      rcases mem_upsertDevice hd' with hd' | rfl
      · exact .inl ⟨d', hd', rfl⟩
      · cases hfits with
        | enrolls hissued hfresh =>
          rcases hwants with ⟨hdrawn, -⟩ | ⟨d, hd, hsame, -⟩
          · exact .inr ⟨hdrawn, device, List.mem_cons_self, rfl⟩
          · obtain ⟨d₁, hd₁, hs⟩ := h.listing m hm d hd
            exact absurd (hs.deviceId.trans hsame.deviceId.symm) (hfresh d₁ hd₁)
        | revokes d hd hsame hrevoked => exact .inl ⟨d, hd, hsame.deviceId.symm⟩
    · intro d hd
      rcases List.mem_cons.mp hd with rfl | hd
      · exact ⟨storedDevice d, hin, succeeds_stored d⟩
      · exact (h.stored m hm).trans hrows d hd
  · exact h.step hi h.keyed (List.Subset.refl _) (.refl _) (fun d hd => .inl ⟨d, hd, rfl⟩)
      (h.listing m hm) (h.stored m hm) (List.Subset.refl _) fun id hid => .inl hid

/-- A client that starts knows nothing. -/
theorem Known.started (h : Known s ms) : Known s (ms ++ [errand.init]) := by
  have hlist : ∀ {P : Errand → Prop}, (∀ m ∈ ms, P m) → P errand.init →
      ∀ m ∈ ms ++ [errand.init], P m := by
    intro P hold hinit m hm
    rcases List.mem_append.mp hm with hm | hm
    · exact hold m hm
    · rw [List.mem_singleton.mp hm]
      exact hinit
  refine ⟨h.keyed, hlist h.listing nofun, hlist h.stored nofun, hlist h.drawn nofun, ?_⟩
  intro i j m m' id hi hj hid hid'
  rcases getElem?_concat_some hi with hi | rfl
  · rcases getElem?_concat_some hj with hj | rfl
    · exact h.apart i j m m' id hi hj hid hid'
    · exact absurd hid' List.not_mem_nil
  · exact absurd hid List.not_mem_nil

end Steps

/-! ### What the commands want -/

/-- Actions that a client learns nothing from. -/
def unread {β : Type} : Op β → Prop
  | .newUuid => False
  | .query _ => False
  | _ => True

theorem still_context {α : Type} {x : Handler α} (h : Only unread x.run) :
    Still errand.rules (inContext x) := by
  refine still_embedded (still_of_only (fun {β op} hop m => ⟨trivial, ?_⟩) h)
  rintro r m' ⟨-, rfl⟩
  cases op with
  | newUuid => exact hop.elim
  | query q => exact hop.elim
  | _ => rfl

theorem only_unread_requireUnsealed : Only unread requireUnsealed.run := by
  refine only_except_bind (only_call trivial) fun b => ?_
  cases b with
  | true => exact only_pure _
  | false => exact only_throw _

theorem still_requireUnsealed : Still errand.rules (inContext requireUnsealed) :=
  still_context only_unread_requireUnsealed

theorem still_requireHmacKey : Still errand.rules (inContext requireHmacKey) :=
  still_context (only_except_bind (only_call trivial) fun _ => only_orThrow _ _)

theorem still_auditCommit (params : AppendParams) (key : Key) :
    Still errand.rules (inContext (auditCommit params key)) :=
  still_context (only_attempt trivial)

/-- The record that ends each command. -/
theorem recorded_yields (params : AppendParams) (reply : DeviceReply) {m : Errand} :
    Yields errand.rules (do
      let hmacKey ← inContext requireHmacKey
      inContext (auditCommit params hmacKey)
      return reply) m fun m' r => m' = m ∧ r = reply := by
  refine yields_bind still_requireHmacKey.yields ?_
  rintro m' key rfl
  refine yields_bind (still_auditCommit params key).yields ?_
  rintro m' - rfl
  exact yields_pure ⟨rfl, rfl⟩

/-- The read of the rows. -/
theorem list_yields {m : Errand} :
    Yields errand.rules (inContext (query .listCompanionDevices)) m fun m' devices =>
      m' = { m with listing := devices } := by
  refine yields_embedded (yields_attempt trivial ?_)
  rintro devices m' ⟨-, rfl⟩
  rfl

/-- A pairing leaves the device that it answers. -/
theorem pair_yields (cmd : PairDeviceCommand) :
    Yields errand.rules cmd.execute errand.init fun m reply => ∃ deviceId enrolledAt,
      cmd.device deviceId enrolledAt ∈ m.stored ∧
      reply = .paired (cmd.device deviceId enrolledAt) := by
  refine yields_bind still_requireUnsealed.yields ?_
  rintro m - rfl
  refine yields_bind (yields_call (P := fun m id => m = ⟨[id], [], []⟩) trivial ?_) ?_
  · rintro id m ⟨-, rfl⟩
    rfl
  rintro m id rfl
  refine yields_bind (yields_call (P := fun m _ => m = ⟨[id], [], []⟩) trivial ?_) ?_
  · rintro now m ⟨-, rfl⟩
    rfl
  rintro m now rfl
  have hwants : Errand.Wants ⟨[id], [], []⟩ (cmd.device id now) :=
    .inl ⟨List.mem_singleton_self _, nofun⟩
  refine yields_bind (yields_attempt (P := fun m _ => cmd.device id now ∈ m.stored) hwants ?_) ?_
  · rintro ⟨⟩ m ⟨-, rfl⟩
    exact List.mem_cons_self
  rintro m - hstored
  refine (recorded_yields _ _).mono ?_
  rintro m' reply ⟨rfl, rfl⟩
  exact ⟨id, now, hstored, rfl⟩

/-- A revocation leaves the device revoked. -/
theorem revoke_yields (cmd : RevokeDeviceCommand) :
    Yields errand.rules (cmd.execute E) errand.init fun m _ => ∃ device ∈ m.stored,
      device.deviceId = cmd.deviceId ∧ device.revokedAt.isSome = true := by
  refine yields_bind still_requireUnsealed.yields ?_
  rintro m - rfl
  refine yields_bind list_yields ?_
  rintro m devices rfl
  refine yields_bind (yields_orThrow (P := fun m d => m = ⟨[], devices, []⟩ ∧
    d ∈ devices ∧ d.deviceId = cmd.deviceId) ?_) ?_
  · intro d hd
    exact ⟨rfl, List.mem_of_find?_eq_some hd, by simpa using List.find?_some hd⟩
  rintro m device ⟨rfl, hmem, hid⟩
  split_ifs with hrevoked
  · exact yields_throw _
  refine yields_bind (yields_call (P := fun m _ => m = ⟨[], devices, []⟩) trivial ?_) ?_
  · rintro r m ⟨-, rfl⟩
    rfl
  rintro m revokedAt rfl
  have hwants : Errand.Wants ⟨[], devices, []⟩ { device with revokedAt := some revokedAt } :=
    .inr ⟨device, hmem, succeeds_revoked device revokedAt, rfl⟩
  refine yields_bind (yields_attempt (P := fun m _ =>
    { device with revokedAt := some revokedAt } ∈ m.stored) hwants ?_) ?_
  · rintro ⟨⟩ m ⟨-, rfl⟩
    exact List.mem_cons_self
  rintro m - hstored
  refine (recorded_yields _ _).mono ?_
  rintro m' reply ⟨rfl, -⟩
  exact ⟨_, hstored, hid, rfl⟩

/-- A listing stores nothing. -/
theorem list_yields_nothing (cmd : ListDevicesCommand) :
    Yields errand.rules cmd.execute errand.init fun _ _ => True := by
  refine yields_bind still_requireUnsealed.yields ?_
  rintro m - rfl
  refine yields_bind list_yields ?_
  rintro m devices rfl
  exact (recorded_yields _ _).mono fun _ _ _ => trivial


theorem conforms_contextual {α : Type} {p : Prog DeviceOp α} {m : Errand} (h : Only contextual p) :
    Conforms errand p m fun _ _ => True := by
  refine wp_of_only (I := fun _ => True) (fun {β m op} hop _ => ?_) (fun _ _ _ => trivial) h trivial
  cases op with
  | app op => trivial
  | putCompanionDevice device => exact hop.elim

theorem client_conforms {p : Prog DeviceOp (Except Problem DeviceReply)} (h : DeviceClient E p) :
    Conforms errand p errand.init fun _ _ => True := by
  cases h with
  | pairs cmd => exact Wp.mono (fun _ _ _ => trivial) (yields_withError (pair_yields cmd))
  | revokes cmd => exact Wp.mono (fun _ _ _ => trivial) (yields_withError (revoke_yields cmd))
  | lists cmd => exact Wp.mono (fun _ _ _ => trivial) (yields_withError (list_yields_nothing cmd))
  | reveals peer q =>
    exact conforms_contextual (only_except_bind (only_embedded (only_of_forall fun _ => trivial))
      fun _ => only_pure _)
  | others p h => exact conforms_contextual h

/-- What a client has stored when it ends. -/
structure DoneWith (E : Env) (source : Prog DeviceOp (Except Problem DeviceReply)) (m : Errand)
    (r : Except Problem DeviceReply) : Prop where
  paired : ∀ cmd : PairDeviceCommand, source = (withError Problem.app cmd.execute).run →
    ∀ reply, r = .ok reply → ∃ deviceId enrolledAt, cmd.device deviceId enrolledAt ∈ m.stored ∧
      reply = .paired (cmd.device deviceId enrolledAt)
  revoked : ∀ cmd : RevokeDeviceCommand, source = (withError Problem.app (cmd.execute E)).run →
    ∀ reply, r = .ok reply → ∃ device ∈ m.stored, device.deviceId = cmd.deviceId ∧
      device.revokedAt.isSome = true

theorem client_done {p : Prog DeviceOp (Except Problem DeviceReply)} (h : DeviceClient E p) :
    Conforms errand p errand.init (DoneWith E p) := by
  have hpair := Wp.forall (client_conforms h) (Q := fun (cmd : PairDeviceCommand) m r =>
    p = (withError Problem.app cmd.execute).run → ∀ reply, r = .ok reply → ∃ deviceId enrolledAt,
      cmd.device deviceId enrolledAt ∈ m.stored ∧
      reply = .paired (cmd.device deviceId enrolledAt)) fun cmd => by
    by_cases hp : p = (withError Problem.app cmd.execute).run
    · rw [hp]
      exact Wp.mono (fun m r hr _ reply hreply => hr reply hreply)
        (yields_withError (pair_yields cmd))
    · exact (client_conforms h).mono fun _ _ _ heq => absurd heq hp
  have hrevoke := Wp.forall (client_conforms h) (Q := fun (cmd : RevokeDeviceCommand) m r =>
    p = (withError Problem.app (cmd.execute E)).run → ∀ reply, r = .ok reply →
      ∃ device ∈ m.stored, device.deviceId = cmd.deviceId ∧ device.revokedAt.isSome = true)
    fun cmd => by
    by_cases hp : p = (withError Problem.app (cmd.execute E)).run
    · rw [hp]
      exact Wp.mono (fun m r hr _ reply hreply => hr reply hreply)
        (yields_withError (revoke_yields cmd))
    · exact (client_conforms h).mono fun _ _ _ heq => absurd heq hp
  exact (hpair.and hrevoke).mono fun _ _ h => ⟨h.1, h.2⟩

/-! ### The rows in any interleaving -/

section Runs

variable {s₀ : AppState} {c c₀ : DeviceConfig}

theorem known_of_reachable (h₀ : Keyed s₀) (hc : Reachable (deviceSystem E) unguarded s₀ c) :
    Known c.state (monitors errand c.tasks) ∧
      ∀ t ∈ c.tasks, Conforms errand t.prog (errand.after t.hist) (DoneWith E t.source) := by
  refine hc.rule errand (DoneWith E) Known ?_ (fun _ hp => client_done hp) ?_ ?_ ?_
  · exact ⟨h₀, nofun, nofun, nofun, nofun⟩
  · exact fun h => h.started
  · intro β op hist s s' r ms i h hi hallowed hx _
    refine ⟨trivial, ?_⟩
    cases op with
    | app op => exact h.app hi hx
    | putCompanionDevice device => exact (h.put (K := E.toCrates) hi hallowed hx).2
  · rintro s s' ms h rfl
    exact ⟨⟨h.keyed.distinct, h.keyed.issued⟩, nofun, nofun, nofun, nofun⟩

/-- A store of a device that succeeds fits the rows. -/
def FitsOp (s : AppState) {β : Type} : DeviceOp β → β → Prop
  | .app _, _ => True
  | .putCompanionDevice device, r => r = .ok () → Fits s device

/-- A device that is stored enrolls an unknown id, or copies a row that is there. -/
def benign : Guard AppState DeviceOp := fun _ s e => FitsOp s e.op e.res

/-- **Each store enrolls a fresh identifier or revokes a row that it copies**, whatever others did
since the client drew the identifier or read the row. -/
theorem benign_of_reachable (h₀ : Keyed s₀) (hc₀ : Reachable (deviceSystem E) unguarded s₀ c₀)
    (hc : Relation.ReflTransGen (Step (deviceSystem E) unguarded) c₀ c) :
    Relation.ReflTransGen (Step (deviceSystem E) benign) c₀ c := by
  refine hc₀.sharpen (fun {c β i p op k hist r s'} hreach hi hx _ => ?_) hc
  obtain ⟨hknown, hconf⟩ := known_of_reachable h₀ hreach
  have hallowed := (hconf _ (List.mem_of_getElem? hi)).1
  cases op with
  | app op => trivial
  | putCompanionDevice device =>
    have hm : errand.after hist ∈ monitors errand c.tasks :=
      List.mem_map.mpr ⟨_, List.mem_of_getElem? hi, rfl⟩
    exact fun _ => hknown.fits hm hallowed

/-- A step that fits. -/
theorem exec_benign {β : Type} {op : DeviceOp β} {s s' : AppState} {r : β} (h : Keyed s)
    (hx : deviceExec E.toCrates op s r s') (hfits : FitsOp s op r) :
    Keyed s' ∧ Continues s.store.companionDevices s'.store.companionDevices := by
  cases op with
  | app op =>
    obtain ⟨hrows, hissued⟩ := exec_rows hx
    refine ⟨⟨?_, ?_⟩, ?_⟩
    · rw [hrows]
      exact h.distinct
    · rw [hrows]
      exact fun d hd => hissued (h.issued d hd)
    · rw [hrows]
      exact .refl _
  | putCompanionDevice device =>
    rcases hx with ⟨hr, rfl⟩ | ⟨rfl, -⟩
    · obtain ⟨hkeyed, hrows, -⟩ := upsert_fits h (hfits hr).stored
      exact ⟨hkeyed, hrows⟩
    · exact ⟨h, .refl _⟩

/-- **Rows are kept**, with all but their revocation, through every interleaving. -/
theorem continues_of_steps (h : Keyed c₀.state)
    (hc : Relation.ReflTransGen (Step (deviceSystem E) benign) c₀ c) :
    Keyed c.state ∧ Continues c₀.state.store.companionDevices c.state.store.companionDevices := by
  induction hc with
  | refl => exact ⟨h, .refl _⟩
  | tail _ hstep ih =>
    obtain ⟨hkeyed, hrows⟩ := ih
    cases hstep with
    | start p hp => exact ⟨hkeyed, hrows⟩
    | act i p op k hist r s' hi hx hg =>
      obtain ⟨hkeyed', hrows'⟩ := exec_benign hkeyed hx hg
      exact ⟨hkeyed', hrows.trans hrows'⟩
    | restart s' hr =>
      obtain rfl : s' = rebooted _ := hr
      exact ⟨⟨hkeyed.distinct, hkeyed.issued⟩, hrows⟩

/-- **Enrollments and revocations last**: whatever runs beside them, every row of a reachable state
is still there later with the same keys, class, attestation and enrolment, and revoked if it was; the device that a pairing
answered is enrolled, and the device of a revocation that returned is revoked. -/
theorem devices_kept (h₀ : Keyed s₀) (hc₀ : Reachable (deviceSystem E) unguarded s₀ c₀)
    (hc : Relation.ReflTransGen (Step (deviceSystem E) unguarded) c₀ c) :
    (c.state.store.companionDevices.map (·.deviceId)).Nodup ∧
      Continues c₀.state.store.companionDevices c.state.store.companionDevices ∧
      ∀ t ∈ c.tasks, ∀ reply, t.prog = .ret (.ok reply) →
        (∀ cmd : PairDeviceCommand, t.source = (withError Problem.app cmd.execute).run →
          ∃ deviceId enrolledAt, reply = .paired (cmd.device deviceId enrolledAt) ∧
            ∃ d ∈ c.state.store.companionDevices, Succeeds (cmd.device deviceId enrolledAt) d) ∧
        ∀ cmd : RevokeDeviceCommand, t.source = (withError Problem.app (cmd.execute E)).run →
          ∃ d ∈ c.state.store.companionDevices, d.deviceId = cmd.deviceId ∧
            d.revokedAt.isSome = true := by
  have hkeyed₀ := (known_of_reachable h₀ hc₀).1.keyed
  obtain ⟨hknown, hconf⟩ := known_of_reachable h₀ (hc₀.trans hc)
  refine ⟨hknown.keyed.distinct,
    (continues_of_steps hkeyed₀ (benign_of_reachable h₀ hc₀ hc)).2, ?_⟩
  intro t ht reply hret
  have hdone := hconf t ht
  rw [hret] at hdone
  have hstored : Continues (errand.after t.hist).stored c.state.store.companionDevices :=
    hknown.stored _ (List.mem_map.mpr ⟨t, ht, rfl⟩)
  refine ⟨fun cmd hsource => ?_, fun cmd hsource => ?_⟩
  · obtain ⟨deviceId, enrolledAt, hd, hreply⟩ := hdone.paired cmd hsource reply rfl
    exact ⟨deviceId, enrolledAt, hreply, hstored _ hd⟩
  · obtain ⟨device, hd, hid, hrevoked⟩ := hdone.revoked cmd hsource reply rfl
    obtain ⟨d, hd', hs⟩ := hstored device hd
    exact ⟨d, hd', hs.deviceId.trans hid, hs.revoked hrevoked⟩

end Runs

/-! ### A pairing and two revocations of one device -/

/-- A second and two after the epoch. -/
def secondLater : Rfc3339Timestamp := .ofSeconds 1
/-- Two seconds after the epoch. -/
def twoLater : Rfc3339Timestamp := .ofSeconds 2

/-- A device that is to be revoked. -/
def lostDevice : CompanionDevice :=
  ⟨sampleUuid 1, sampleKey, sampleKey, .software, [1, 2], epoch, none⟩

/-- A device that stays. -/
def keptDevice : CompanionDevice :=
  ⟨sampleUuid 2, sampleKey, sampleKey, .secureEnclave, [3], secondLater, none⟩

/-- A vault with both devices. -/
def sampleRegistry : AppState := { sampleState with
  issued := [sampleUuid 2, sampleUuid 1]
  store := { Store.empty with companionDevices := [lostDevice, keptDevice] } }

theorem sampleRegistry_keyed : Keyed sampleRegistry := by
  refine ⟨by decide, fun d hd => ?_⟩
  rcases List.mem_pair.mp hd with rfl | rfl <;> decide

/-- The pairing of a third device. -/
def samplePairing : PairDeviceCommand := ⟨⟨sampleUuid 7⟩, sampleKey, sampleKey, .hardwareToken, [4]⟩

/-- The revocation of the first. -/
def sampleRevocation : RevokeDeviceCommand := ⟨⟨sampleUuid 7⟩, sampleUuid 1⟩

/-- The entry of the pairing. -/
def pairingEntry : AppendParams :=
  { op := .put, outcome := .allow, namespaceId := ⟨sampleUuid 7⟩, callerProgram := agent }

/-- The entry of the revocation. -/
def revocationEntry : AppendParams :=
  { op := .doctor, outcome := .allow, namespaceId := ⟨sampleUuid 7⟩, callerProgram := agent }

/-- The state after a store of a device. -/
def storing (s : AppState) (device : CompanionDevice) : AppState :=
  withDevices s (upsertDevice s.store.companionDevices (storedDevice device))

theorem sample_pairing {s s' : AppState} (hunsealed : s.identity.isUnsealed = true)
    (hissued : sampleUuid 3 ∉ s.issued) (hkey : s.hmacKey = some sampleKey) {draw : Draw}
    (hx : auditCommitSection chainCrates pairingEntry sampleKey draw none
      (storing { s with issued := sampleUuid 3 :: s.issued }
        (samplePairing.device (sampleUuid 3) twoLater)) = (.ok (), s')) :
    ∃ hist, Runs (deviceExec chainEnv.toCrates) (withError Problem.app samplePairing.execute).run s
      hist (.ok (.paired (samplePairing.device (sampleUuid 3) twoLater))) s' := by
  let s₁ : AppState := { s with issued := sampleUuid 3 :: s.issued }
  let s₂ := storing s₁ (samplePairing.device (sampleUuid 3) twoLater)
  refine exists_runs_act rfl true s (by rw [← hunsealed]; rfl) ?_
  refine exists_runs_act rfl (sampleUuid 3) s₁ ⟨hissued, rfl⟩ ?_
  refine exists_runs_act rfl twoLater s₁ rfl ?_
  refine exists_runs_act rfl (.ok ()) s₂ (.inl ⟨rfl, rfl⟩) ?_
  refine exists_runs_act rfl (some sampleKey) s₂ ⟨hkey.symm, rfl⟩ ?_
  refine exists_runs_act rfl (.ok ()) s' ⟨_, _, hx⟩ ?_
  exact exists_runs_ret rfl

/-- Two clients read the device before either revokes it: the copy that is stored last overwrites the
row.  The first of them ends, and another client pairs before the second ends. -/
theorem concurrent_changes_kept : ∃ (c : DeviceConfig)
    (t t' : Task DeviceOp (Except Problem DeviceReply)),
    Reachable (deviceSystem chainEnv) unguarded sampleRegistry c ∧ t ∈ c.tasks ∧ t' ∈ c.tasks ∧
    t.prog = .ret (.ok (.paired (samplePairing.device (sampleUuid 3) twoLater))) ∧
    t'.prog = .ret (.ok (.revoked (sampleUuid 1) secondLater)) ∧
    Continues [lostDevice, keptDevice] c.state.store.companionDevices ∧
    (∃ d ∈ c.state.store.companionDevices,
      Succeeds (samplePairing.device (sampleUuid 3) twoLater) d) ∧
    ∃ d ∈ c.state.store.companionDevices, d.deviceId = sampleUuid 1 ∧ d.revokedAt.isSome = true := by
  let s₀ := sampleRegistry
  let s₁ := storing s₀ { lostDevice with revokedAt := some secondLater }
  let s₂ := storing s₁ { lostDevice with revokedAt := some twoLater }
  obtain ⟨s₃, hx₃, hc₃, hs₃⟩ := (counted_blank (s := s₂) ⟨rfl, rfl, rfl⟩).commit (by decide)
    revocationEntry sampleKey (sampleCall 1).draw List.not_mem_nil
  let s₄ := storing { s₃ with issued := sampleUuid 3 :: s₃.issued }
    (samplePairing.device (sampleUuid 3) twoLater)
  obtain ⟨s₅, hx₅, -⟩ := Counted.commit (s := s₄) ⟨hc₃.rows, hc₃.head, hc₃.headSeq⟩ (by decide)
    pairingEntry sampleKey (sampleCall 2).draw (by decide)
  have hread : [lostDevice, keptDevice] = s₀.store.listCompanionDevices :=
    (listCompanionDevices_of_sorted s₀.store (by decide)).symm
  have hfresh : sampleUuid 3 ∉ s₃.issued := by
    rw [hs₃]
    show sampleUuid 3 ∉ sampleRegistry.issued
    decide
  have hunsealed : s₃.identity.isUnsealed = true := by
    rw [hs₃]
    rfl
  have hkey : s₃.hmacKey = some sampleKey := by
    rw [hs₃]
    rfl
  obtain ⟨hist, hpairing⟩ := sample_pairing hunsealed hfresh hkey hx₅
  have h₀ := Reachable.here (deviceSystem chainEnv) unguarded s₀
  have h := (h₀.start _ (.revokes sampleRevocation)).start _ (.revokes sampleRevocation)
  have h := h.first true s₀ rfl trivial
  have h := h.first (.ok [lostDevice, keptDevice]) s₀ ⟨rfl, none, congrArg Except.ok hread⟩ trivial
  have h := h.second true s₀ rfl trivial
  have h := h.second (.ok [lostDevice, keptDevice]) s₀ ⟨rfl, none, congrArg Except.ok hread⟩ trivial
  have h := h.first secondLater s₀ rfl trivial
  have h := h.first (.ok ()) s₁ (.inl ⟨rfl, rfl⟩) trivial
  have h := h.second twoLater s₁ rfl trivial
  have h := h.second (.ok ()) s₂ (.inl ⟨rfl, rfl⟩) trivial
  have h := h.first (some sampleKey) s₂ ⟨rfl, rfl⟩ trivial
  have h := h.first (.ok ()) s₃ ⟨_, _, hx₃⟩ trivial
  have h := h.runs (.pairs samplePairing) hpairing fun _ _ _ _ => trivial
  obtain ⟨-, hrows, hdone⟩ := devices_kept sampleRegistry_keyed h₀ h
  obtain ⟨deviceId, enrolledAt, hreply, hpaired⟩ :=
    (hdone _ List.mem_concat_self _ rfl).1 samplePairing rfl
  rw [← DeviceReply.paired.inj hreply] at hpaired
  have hrevoked := (hdone _ List.mem_cons_self _ rfl).2 sampleRevocation rfl
  exact ⟨_, _, _, h, List.mem_concat_self, List.mem_cons_self, rfl, rfl, hrows, hpaired, hrevoked⟩

end MerkleVault.Socket.Devices
