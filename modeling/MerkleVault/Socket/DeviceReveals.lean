import MerkleVault.Lib.Gate
import MerkleVault.Socket.Devices

/-! # Challenges of Reveals and Revoked Devices

A reveal reads the devices once, and sends its challenge to the first that is not revoked, or to a
placeholder without a key when there is none.  Pairings, revocations and other reveals run beside it.

* `Sought`: where the challenge of a reveal went, and what its answer was;
* `reveal_spares_revoked`: a challenge never goes to a device that was revoked before the read. -/

namespace MerkleVault.Socket.DeviceReveals

open MerkleVault.Types MerkleVault.External MerkleVault.Lib.Program MerkleVault.Audit.Writer
open MerkleVault.Sqlite.Tables MerkleVault.App.Context MerkleVault.App.Lifecycle
open MerkleVault.App.SecretCommands MerkleVault.App.Reveal MerkleVault.App.IdentitySections
open MerkleVault.App.AuditDurability MerkleVault.App.AuditCoverage MerkleVault.Audit.Integrity
open MerkleVault.Socket.Gate MerkleVault.Socket.Handlers MerkleVault.Socket.Devices

/-! ### Events of a reveal -/

/-- The challenge that a call of a port sends, and to which device. -/
def sentPort {β : Type} : Port β → Option (OobChallenge × CompanionDevice)
  | .oobDispatch challenge device => some (challenge, device)
  | _ => none

/-- The challenge that an action sends, and to which device. -/
def sentOp {β : Type} : Op β → Option (OobChallenge × CompanionDevice)
  | .port p => sentPort p
  | _ => none

/-- The challenge that an action dispatches, and the device it goes to. -/
def sent {β : Type} : DeviceOp β → Option (OobChallenge × CompanionDevice)
  | .app op => sentOp op
  | .putCompanionDevice _ => none

/-- An answer to a challenge. -/
def resolved (id : ChallengeId) (timeout : Nat) (resolution : OobResolution) : Event DeviceOp :=
  ⟨.app (.port (.oobAwaitResolution id timeout)), .ok resolution⟩

/-- A listing of the devices. -/
def listed (devices : List CompanionDevice) : Event DeviceOp :=
  ⟨.app (.query .listCompanionDevices), .ok devices⟩

/-- The device of a challenge: the first that is not revoked, else a placeholder without a key. -/
def Targets (devices : List CompanionDevice) (device : CompanionDevice) : Prop :=
  devices.find? (fun d => d.revokedAt.isNone) = some device ∨
    devices.find? (fun d => d.revokedAt.isNone) = none ∧ device.ed25519Pubkey = Vector.replicate 32 0

/-- Each challenge went to a device of rows that were read before. -/
def Addressed (h : List (Event DeviceOp)) : Prop :=
  ∀ pre e post challenge device, h = pre ++ e :: post → sent e.op = some (challenge, device) →
    ∃ devices, listed devices ∈ pre ∧ Targets devices device

variable (E : Env)

/-- Each challenge was approved, and the signature of the answer, where there is a key and a
signature, verifies over the nonce of the challenge. -/
def Answered (h : List (Event DeviceOp)) : Prop :=
  ∀ e ∈ h, ∀ challenge device, sent e.op = some (challenge, device) → ∃ timeout resolution,
    resolved challenge.challengeId timeout resolution ∈ h ∧ resolution.isApproved = true ∧
      RevealSecretCommand.checkSignature E device challenge.requestNonce resolution = .ok ()

/-- Where challenges went, and what was answered when a value is returned. -/
def Sought {ε α : Type} (h : List (Event DeviceOp)) (r : Except ε α) : Prop :=
  Addressed h ∧ ∀ a, r = .ok a → Answered E h

/-- The history of the reveal, seen from its actions on the context. -/
abbrev noted : Rules Op (List (Event DeviceOp)) := history.rules.pull DeviceOp.app

/-! ### Actions that dispatch nothing -/

/-- The action sends no challenge. -/
abbrev undispatched {β : Type} (op : Op β) : Prop := sentOp op = none

variable {E} {h h' : List (Event DeviceOp)} {e : Event DeviceOp}

theorem Addressed.concat (ha : Addressed h)
    (he : ∀ challenge device, sent e.op = some (challenge, device) →
      ∃ devices, listed devices ∈ h ∧ Targets devices device) : Addressed (h ++ [e]) := by
  intro pre e' post challenge device heq hsent
  rcases Lib.Gate.split_concat heq with ⟨rfl, rfl⟩ | ⟨post', hpre⟩
  · exact he challenge device hsent
  · exact ha pre e' post' challenge device hpre hsent

theorem Answered.concat (ha : Answered E h) (he : sent e.op = none) : Answered E (h ++ [e]) := by
  intro e' hin challenge device hsent
  rcases List.mem_append.mp hin with hin | hin
  · obtain ⟨timeout, resolution, hres, happroved, hsig⟩ := ha e' hin challenge device hsent
    exact ⟨timeout, resolution, List.mem_append_left _ hres, happroved, hsig⟩
  · rw [List.mem_singleton.mp hin, he] at hsent
    cases hsent

theorem wp_addressed {α : Type} {p : Prog Op α} (hp : Only undispatched p) (ha : Addressed h) :
    Wp noted p h fun h' _ => Addressed h' ∧ h <+: h' := by
  refine wp_of_only (I := fun h' => Addressed h' ∧ h <+: h') (fun _ _ => trivial) ?_ hp
    ⟨ha, List.prefix_rfl⟩
  rintro β op h₁ h₂ r hop ⟨ha, hprefix⟩ ⟨-, rfl⟩
  refine ⟨ha.concat fun challenge device he => ?_, hprefix.trans (List.prefix_append _ _)⟩
  exact absurd ((show sentOp op = none from hop).symm.trans he) (Option.some_ne_none _).symm

/-- **Programs that dispatch nothing** change nothing of this. -/
theorem wp_undispatched {α : Type} {p : Prog Op α} (hp : Only undispatched p) (ha : Addressed h)
    (hq : Answered E h) : Wp noted p h fun h' _ => Addressed h' ∧ Answered E h' ∧ h <+: h' := by
  have hanswered : Wp noted p h fun h' _ => Answered E h' := by
    refine wp_of_only (I := Answered E) (fun _ _ => trivial) ?_ hp hq
    rintro β op h₁ h₂ r hop hq ⟨-, rfl⟩
    exact hq.concat hop
  exact ((wp_addressed hp ha).and hanswered).mono fun _ _ hr => ⟨hr.1.1, hr.2, hr.1.2⟩

theorem sought_bind {ε α β : Type} {x : Cmd Op ε α} {f : α → Cmd Op ε β} (hx : Only undispatched x.run)
    (ha : Addressed h) (hq : Answered E h)
    (hf : ∀ h' a, Addressed h' → Answered E h' → h <+: h' → Wp noted (f a).run h' (Sought E)) :
    Wp noted (x >>= f).run h (Sought E) := by
  rw [wp_except_bind]
  refine (wp_undispatched hx ha hq).mono ?_
  rintro h' r ⟨ha', hq', hprefix⟩
  cases r with
  | ok a => exact hf h' a ha' hq' hprefix
  | error e => exact ⟨ha', fun _ _ => hq'⟩

theorem sought_only {ε α : Type} {x : Cmd Op ε α} (hx : Only undispatched x.run)
    (ha : Addressed h) (hq : Answered E h) : Wp noted x.run h (Sought E) :=
  (wp_undispatched hx ha hq).mono fun _ _ hr => ⟨hr.1, fun _ _ => hr.2.1⟩

theorem only_requireUnsealed : Only undispatched requireUnsealed.run := by
  refine only_except_bind (only_call rfl) fun b => ?_
  cases b with
  | true => exact only_pure ()
  | false => exact only_throw _

theorem only_requireHmacKey : Only undispatched requireHmacKey.run :=
  only_except_bind (only_call rfl) fun _ => only_orThrow _ _

theorem only_query {β : Type} (q : Query β) : Only undispatched (query q).run := only_attempt rfl

theorem only_loadSecret (handle : Handle) : Only undispatched (loadSecret handle).run := by
  refine only_except_bind (only_except_bind (only_query _) fun row => ?_) fun _ => only_orThrow _ _
  cases row with
  | none => exact only_pure none
  | some row => exact only_except_bind (only_query _) fun _ => only_pure _

theorem only_check (namespaceId : NamespaceId) (peer : PeerCredentials) :
    Only undispatched (check namespaceId peer).run := by
  refine only_except_bind (only_call rfl) fun policy => ?_
  cases policy with
  | error e => exact only_throw _
  | ok policy =>
    cases policy with
    | none => exact only_pure ()
    | some policy => exact only_ofExcept _ _

theorem only_deriveDekBytes (namespaceId : NamespaceId) :
    Only undispatched (deriveDekBytes E namespaceId).run :=
  only_except_bind (only_withError only_requireHmacKey) fun _ => only_pure _

variable {cmd : RevealSecretCommand}

theorem only_attest : Only undispatched (cmd.attest E).run := by
  unfold RevealSecretCommand.attest
  cases cmd.operatorConfirmation.signedConfigFlag with
  | none => exact only_pure ()
  | some flag =>
    dsimp only
    split_ifs
    · exact only_pure ()
    · refine only_except_bind (only_attempt rfl) fun _ => ?_
      refine only_except_bind (only_orThrow _ _) fun _ => ?_
      refine only_except_bind (only_orThrow _ _) fun _ => ?_
      exact only_except_bind (only_call rfl) fun _ => only_ofExcept _ _

theorem only_release : Only undispatched (cmd.release E).run := by
  refine only_except_bind (only_loadSecret _) fun _ => ?_
  refine only_except_bind (only_orThrow _ _) fun _ => ?_
  refine only_except_bind (only_ofExcept _ _) fun _ => ?_
  refine only_except_bind only_requireHmacKey fun _ => ?_
  exact only_except_bind (only_attempt rfl) fun _ => only_pure _

/-! ### The challenge -/

theorem refuse_sought {α : Type} {reason detail : String} (ha : Addressed h) :
    Wp noted (cmd.refuse reason detail : Handler α).run h (Sought E) := by
  unfold RevealSecretCommand.refuse deny
  rw [wp_except_bind]
  refine (wp_addressed only_requireHmacKey ha).mono ?_
  rintro h₁ r ⟨ha₁, -⟩
  cases r with
  | error e => exact ⟨ha₁, fun _ hr => by cases hr⟩
  | ok key =>
    dsimp only
    rw [wp_except_bind]
    refine (wp_addressed (only_attempt rfl) ha₁).mono ?_
    rintro h₂ r ⟨ha₂, -⟩
    cases r with
    | error e => exact ⟨ha₂, fun _ hr => by cases hr⟩
    | ok _ => exact ⟨ha₂, fun _ hr => by cases hr⟩

/-- The device comes from the rows. -/
theorem targetDevice_targets {devices : List CompanionDevice} (ha : Addressed h) (hq : Answered E h)
    (hdevice : cmd.companionDevice = devices.find? fun d => d.revokedAt.isNone) :
    Wp noted cmd.targetDevice.run h fun h' r => Addressed h' ∧ Answered E h' ∧ h <+: h' ∧
      ∃ device, r = .ok device ∧ Targets devices device := by
  unfold RevealSecretCommand.targetDevice
  cases hd : cmd.companionDevice with
  | some d => exact ⟨ha, hq, List.prefix_rfl, d, rfl, .inl (hdevice.symm.trans hd)⟩
  | none =>
    dsimp only
    unfold RevealSecretCommand.softwarePlaceholderDevice
    rw [wp_except_bind, wp_call]
    refine ⟨trivial, ?_⟩
    rintro id h' ⟨-, rfl⟩
    dsimp only
    rw [wp_except_bind, wp_call]
    refine ⟨trivial, ?_⟩
    rintro now h' ⟨-, rfl⟩
    refine ⟨(ha.concat fun _ _ he => ?_).concat fun _ _ he => ?_, (hq.concat rfl).concat rfl,
      (List.prefix_append _ _).trans (List.prefix_append _ _), _, rfl,
      .inr ⟨hdevice.symm.trans hd, rfl⟩⟩
    · cases he
    · cases he

theorem challenge_sought {devices : List CompanionDevice} (ha : Addressed h) (hq : Answered E h)
    (hlisted : listed devices ∈ h)
    (hdevice : cmd.companionDevice = devices.find? fun d => d.revokedAt.isNone) :
    Wp noted (cmd.challenge E).run h (Sought E) := by
  unfold RevealSecretCommand.challenge
  rw [wp_except_bind]
  refine (targetDevice_targets ha hq hdevice).mono ?_
  rintro h₁ r ⟨ha₁, hq₁, hp₁, device, rfl, htargets⟩
  refine sought_bind (only_call rfl) ha₁ hq₁ fun h₂ id ha₂ hq₂ hp₂ => ?_
  refine sought_bind (only_call rfl) ha₂ hq₂ fun h₃ expiresAt ha₃ hq₃ hp₃ => ?_
  refine sought_bind (only_call rfl) ha₃ hq₃ fun h₄ nonce ha₄ hq₄ hp₄ => ?_
  have hlisted₄ := (hp₁.trans (hp₂.trans (hp₃.trans hp₄))).subset hlisted
  rw [wp_except_bind, wp_call]
  refine ⟨trivial, ?_⟩
  rintro r h₅ ⟨-, rfl⟩
  generalize hch : OobChallenge.mk ⟨id⟩ cmd.namespaceId cmd.handle cmd.sensitivity cmd.oobChannel
    expiresAt nonce = challenge
  have ha₅ : Addressed (h₄ ++ [⟨.app (.port (.oobDispatch challenge device)), r⟩]) := by
    refine ha₄.concat fun challenge' device' he => ?_
    obtain ⟨rfl, rfl⟩ := Prod.mk.inj (Option.some.inj he)
    exact ⟨devices, hlisted₄, htargets⟩
  cases r with
  | error e => exact refuse_sought ha₅
  | ok _ =>
    dsimp only
    rw [wp_except_bind, wp_call]
    refine ⟨trivial, ?_⟩
    rintro r h₆ ⟨-, rfl⟩
    have ha₆ := ha₅.concat (e := ⟨.app (.port (.oobAwaitResolution ⟨id⟩ cmd.oobTimeout)), r⟩)
      fun _ _ he => by cases he
    cases r with
    | error e => exact refuse_sought ha₆
    | ok resolution =>
      dsimp only
      by_cases happroved : resolution.isApproved = true
      · rw [if_neg (by rw [happroved]; decide)]
        cases hsig : RevealSecretCommand.checkSignature E device nonce resolution with
        | error e => exact refuse_sought ha₆
        | ok _ =>
          refine ⟨ha₆, fun _ _ e hin challenge' device' he => ?_⟩
          have hlast : resolved ⟨id⟩ cmd.oobTimeout resolution ∈
              h₄ ++ [⟨.app (.port (.oobDispatch challenge device)), .ok ()⟩] ++
                [resolved ⟨id⟩ cmd.oobTimeout resolution] := List.mem_concat_self
          rcases List.mem_append.mp hin with hin | hin
          · rcases List.mem_append.mp hin with hin | hin
            · obtain ⟨timeout, res, hres, hok⟩ := hq₄ e hin challenge' device' he
              exact ⟨timeout, res, List.mem_append_left _ (List.mem_append_left _ hres), hok⟩
            · -- The answer that came is to the challenge that was dispatched.
              obtain rfl := List.mem_singleton.mp hin
              obtain ⟨rfl, rfl⟩ := Prod.mk.inj (Option.some.inj he)
              rw [← hch]
              rw [← hch] at hlast
              exact ⟨cmd.oobTimeout, resolution, hlast, happroved, hsig⟩
          · obtain rfl := List.mem_singleton.mp hin
            cases he
      · rw [if_pos (by simpa using happroved)]
        exact refuse_sought ha₆

/-! ### The reveal -/

theorem command_sought (devices : List CompanionDevice) (ha : Addressed h) (hq : Answered E h)
    (hlisted : listed devices ∈ h)
    (hdevice : cmd.companionDevice = devices.find? fun d => d.revokedAt.isNone) :
    Wp noted (cmd.execute E).run h (Sought E) := by
  unfold RevealSecretCommand.execute
  refine sought_bind only_requireUnsealed ha hq fun h₁ _ ha₁ hq₁ hp₁ => ?_
  refine sought_bind only_attest ha₁ hq₁ fun h₂ _ ha₂ hq₂ hp₂ => ?_
  have hconfirmed : Wp noted (cmd.effectiveConfirmation E).run h₂ (Sought E) := by
    unfold RevealSecretCommand.effectiveConfirmation
    split_ifs
    · rw [wp_except_bind]
      refine (challenge_sought ha₂ hq₂ ((hp₁.trans hp₂).subset hlisted) hdevice).mono ?_
      rintro h₃ r ⟨ha₃, hq₃⟩
      cases r with
      | error e => exact ⟨ha₃, fun _ hr => by cases hr⟩
      | ok _ => exact ⟨ha₃, fun _ _ => hq₃ _ rfl⟩
    · exact ⟨ha₂, fun _ _ => hq₂⟩
  rw [wp_except_bind]
  refine hconfirmed.mono ?_
  rintro h₃ r ⟨ha₃, hq₃⟩
  cases r with
  | error e => exact ⟨ha₃, fun _ hr => by cases hr⟩
  | ok confirmation =>
    dsimp only
    cases evaluate confirmation cmd.sensitivity cmd.oobThreshold cmd.securityProfile
      cmd.boundDeviceClass cmd.requiredDeviceClass with
    | deny reason => exact refuse_sought ha₃
    | allow => exact sought_only only_release ha₃ (hq₃ _ rfl)

theorem executeReveal_sought {handle : Handle} {namespaceId : NamespaceId} {sensitivity : Sensitivity}
    {oobChannel : OobChannel} {dekBytes : Key} (ha : Addressed h) (hq : Answered E h) :
    Wp noted (executeReveal E handle namespaceId sensitivity oobChannel dekBytes).run h (Sought E) := by
  unfold executeReveal
  refine sought_bind (only_withError (only_query _)) ha hq fun h₁ policy ha₁ hq₁ _ => ?_
  dsimp only
  split_ifs
  · exact ⟨ha₁, fun _ hr => by cases hr⟩
  rw [wp_except_bind, runApp, wp_withError, query, wp_attempt]
  refine ⟨trivial, ?_⟩
  rintro r h₂ ⟨-, rfl⟩
  have ha₂ := ha₁.concat (e := ⟨.app (.query .listCompanionDevices), r⟩) fun _ _ he => by cases he
  have hq₂ := hq₁.concat (e := ⟨.app (.query .listCompanionDevices), r⟩) rfl
  cases r with
  | error e => exact ⟨ha₂, fun _ hr => by cases hr⟩
  | ok devices =>
    dsimp only [Except.mapError]
    rw [wp_except_bind, runApp, wp_withError]
    refine (command_sought devices ha₂ hq₂ List.mem_concat_self rfl).mono ?_
    rintro h₃ r ⟨ha₃, hq₃⟩
    cases r with
    | error e => exact ⟨ha₃, fun _ hr => by cases hr⟩
    | ok reply =>
      exact sought_only (only_except_bind (only_call rfl) fun _ => only_pure _) ha₃ (hq₃ _ rfl)

theorem handler_sought {peer : PeerCredentials} {q : RevealRequest} (ha : Addressed h)
    (hq : Answered E h) : Wp noted (reveal E peer q).run h (Sought E) := by
  unfold reveal
  split_ifs
  · exact ⟨ha, fun _ hr => by cases hr⟩
  refine sought_bind (only_withError only_requireUnsealed) ha hq fun h₁ _ ha₁ hq₁ _ => ?_
  refine sought_bind (only_withError (only_loadSecret _)) ha₁ hq₁ fun h₂ secret ha₂ hq₂ _ => ?_
  refine sought_bind (only_check _ _) ha₂ hq₂ fun h₃ _ ha₃ hq₃ _ => ?_
  refine sought_bind (only_deriveDekBytes _) ha₃ hq₃ fun h₄ dekBytes ha₄ hq₄ _ => ?_
  exact executeReveal_sought ha₄ hq₄

/-- **What a reveal does with its challenge**, from its start. -/
theorem reveal_sought (peer : PeerCredentials) (q : RevealRequest) :
    Conforms history (revealOver E peer q).run [] (Sought E) := by
  have ha : Addressed [] := fun pre e post _ _ heq _ => by simp at heq
  have hq : Answered E [] := fun _ he => absurd he List.not_mem_nil
  unfold revealOver
  rw [Conforms, wp_except_bind, wp_embedded]
  refine (handler_sought ha hq).mono ?_
  rintro h r ⟨ha, hq⟩
  cases r with
  | error e => exact ⟨ha, fun _ hr => by cases hr⟩
  | ok response => exact ⟨ha, fun _ _ => hq _ rfl⟩

/-! ### Reveals beside revocations -/

/-- Along the steps that fit, the rows are kept. -/
theorem continues_of_path {s s' : AppState} {ts : List (Transition AppState DeviceOp)} (hs : Keyed s)
    (hts : Path ((deviceSystem E).admitted benign) s ts s') :
    Keyed s' ∧ Continues s.store.companionDevices s'.store.companionDevices := by
  refine MerkleVault.Lib.Program.Path.inv (I := fun s' => Keyed s' ∧ Continues s.store.companionDevices
    s'.store.companionDevices) (E := fun _ => True) ?_ ⟨hs, .refl _⟩ hts fun _ _ => trivial
  rintro t ⟨hkeyed, hrows⟩ ⟨hx, hist, hfits⟩ -
  obtain ⟨hkeyed', hrows'⟩ := exec_benign hkeyed hx hfits
  exact ⟨hkeyed', hrows.trans hrows'⟩

theorem rows_before {s s' : AppState} {ts : List (Transition AppState DeviceOp)}
    {tr : Transition AppState DeviceOp} (hs : Keyed s)
    (hts : Path ((deviceSystem E).admitted benign) s ts s') (htr : tr ∈ ts) : Keyed s' ∧
      Continues tr.before.store.companionDevices s'.store.companionDevices := by
  obtain ⟨ts₁, ts₂, rfl⟩ := List.append_of_mem htr
  obtain ⟨s₁, hts₁, hts₂⟩ := path_append.mp hts
  obtain rfl := hts₂.1
  exact continues_of_path (continues_of_path hs hts₁).1 hts₂

/-- A read shows the rows. -/
theorem listed_rows {tr : Transition AppState DeviceOp} {devices : List CompanionDevice}
    (hevent : tr.event = listed devices)
    (hx : deviceExec E.toCrates tr.event.op tr.before tr.event.res tr.after) :
    devices = tr.before.store.listCompanionDevices := by
  obtain ⟨own, before, event, after⟩ := tr
  obtain rfl : event = listed devices := hevent
  obtain ⟨-, fault, hr⟩ := hx
  exact Except.ok.inj (faulty_ok hr.symm).2.symm

/-- A device that is not revoked now was not revoked before. -/
theorem unrevoked_before {s s' : AppState} (hs' : Keyed s')
    (hrows : Continues s.store.companionDevices s'.store.companionDevices) {d device : CompanionDevice}
    (hd : d ∈ s.store.companionDevices) (hrevoked : d.revokedAt.isSome = true)
    (hdevice : device ∈ s'.store.companionDevices) (hlive : device.revokedAt.isNone = true) :
    d.deviceId ≠ device.deviceId := by
  intro hid
  obtain ⟨d', hd', hsucceeds⟩ := hrows d hd
  have hd'revoked := hsucceeds.revoked hrevoked
  rw [eq_of_deviceId hs'.distinct hd' hdevice (hsucceeds.deviceId.trans hid)] at hd'revoked
  rw [Option.isNone_iff_eq_none.mp hlive] at hd'revoked
  cases hd'revoked

section Runs

variable {s₀ : AppState} {c : DeviceConfig} {t : Task DeviceOp (Except Problem DeviceReply)}

/-- The devices that a reveal may still send a challenge to: enrolled, and revoked at no time before. -/
structure Spared (s : AppState) (past : List (Transition AppState DeviceOp))
    (device : CompanionDevice) : Prop where
  enrolled : device ∈ s.store.companionDevices
  unrevoked : device.revokedAt = none
  never : ∀ tr ∈ past, ∀ d ∈ tr.before.store.companionDevices, d.revokedAt.isSome = true →
    d.deviceId ≠ device.deviceId

/-- **A challenge spares revoked devices**: a reveal that ended ran among the other clients; before
it sent a challenge it read the rows, and the challenge went to an enrolled device that was revoked
neither then nor in any state of the reveal before, or to a placeholder without a key when every
device was revoked.  A reveal that answered had its challenge approved, with a signature over its
nonce that verifies where there is a key and a signature. -/
theorem reveal_spares_revoked (h₀ : Keyed s₀) (hc : Reachable (deviceSystem E) unguarded s₀ c)
    (ht : t ∈ c.tasks) {peer : PeerCredentials} {q : RevealRequest}
    (hsource : t.source = (revealOver E peer q).run) {r : Except Problem DeviceReply}
    (hend : t.prog = .ret r) : ∃ c₁ trace s', Reachable (deviceSystem E) benign s₀ c₁ ∧
      RunsAmong ((deviceSystem E).admitted benign) t.source c₁.state trace r s' ∧
      ownEvents trace = t.hist ∧
      (∀ e ∈ t.hist, ∀ challenge device, sent e.op = some (challenge, device) →
        ∃ pre at' post, trace = pre ++ at' :: post ∧ at'.own = true ∧ e ∈ ownEvents post ∧
          at'.event = listed at'.before.store.listCompanionDevices ∧
          (Spared at'.before pre device ∨
            (∀ d ∈ at'.before.store.companionDevices, d.revokedAt.isSome = true) ∧
              device.ed25519Pubkey = Vector.replicate 32 0)) ∧
      ∀ reply, r = .ok reply → Answered E t.hist := by
  have hbenign := benign_of_reachable h₀ (.here _ _ _) hc
  obtain ⟨c₁, trace, s', others, hc₁, hown, hrun, -⟩ := Reachable.among_ended hbenign ht hend
  have hkeyed₁ : Keyed c₁.state := (continues_of_steps h₀ hc₁).1
  have hsought : Sought E t.hist r := by
    have hconf := hc.conforms history (fun p h r => p = (revealOver E peer q).run → Sought E h r)
      (fun p _ => ?_) (fun _ => trivial) t ht
    · rw [hend, history_after] at hconf
      exact hconf hsource
    · by_cases hp : p = (revealOver E peer q).run
      · rw [hp]
        exact (reveal_sought peer q).mono fun _ _ hr _ => hr
      · exact wp_of_forall (fun _ _ => trivial) fun _ _ he => absurd he hp
  refine ⟨c₁, trace, s', hc₁, hrun, hown, ?_, hsought.2⟩
  intro e he challenge device hsent
  obtain ⟨h₁, h₂, hsplit⟩ := List.append_of_mem he
  obtain ⟨devices, hlisted, htargets⟩ := hsought.1 h₁ e h₂ challenge device hsplit hsent
  obtain ⟨g₁, g₂, rfl⟩ := List.append_of_mem hlisted
  rw [hsplit, List.append_assoc, List.cons_append] at hown
  obtain ⟨pre, at', post, rfl, hat, hevent, -, hpost⟩ := exists_transition hown
  obtain ⟨s₁, hpre, hbefore, hx, -⟩ := path_append.mp hrun.path
  subst hbefore
  obtain rfl := listed_rows hevent hx.1
  refine ⟨pre, at', post, rfl, hat, by rw [hpost]; simp, hevent, htargets.imp ?_ ?_⟩
  · intro hfind
    have hdevice := mem_listCompanionDevices.mp (List.mem_of_find?_eq_some hfind)
    have hlive : device.revokedAt.isNone = true := by simpa using List.find?_some hfind
    refine ⟨hdevice, Option.isNone_iff_eq_none.mp hlive, fun tr htr d hd hrevoked => ?_⟩
    obtain ⟨hkeyed, hrows⟩ := rows_before hkeyed₁ hpre htr
    exact unrevoked_before hkeyed hrows hd hrevoked hdevice hlive
  · rintro ⟨hnone, hkey⟩
    refine ⟨fun d hd => ?_, hkey⟩
    have := List.find?_eq_none.mp hnone d (mem_listCompanionDevices.mpr hd)
    simpa [Option.isSome_iff_ne_none] using this

end Runs

/-! ### A reveal after a revocation -/

/-- A device that is revoked. -/
def lostDevice : CompanionDevice :=
  ⟨sampleUuid 8, sampleKey, sampleKey, .software, [], epoch, some epoch⟩
/-- A device that is not. -/
def liveDevice : CompanionDevice := ⟨sampleUuid 9, sampleKey, sampleKey, .software, [], epoch, none⟩

/-- The key of the sample namespace. -/
def sampleDek : Key := namespaceDek sampleEnv sampleKey ⟨sampleUuid 1⟩

/-- A vault with one secret and two devices, the first revoked. -/
def guardedVault : AppState :=
  let version := sampleVersion 1 (sampleBlob sampleDek [1, 2, 3])
  { sampleVault 1 [version] with
    issued := [sampleUuid 9, sampleUuid 8, sampleUuid 2, sampleUuid 1]
    store := { (sampleVault 1 [version]).store with companionDevices := [lostDevice, liveDevice] } }

theorem guardedVault_keyed : Keyed guardedVault := by
  refine ⟨by decide, fun d hd => ?_⟩
  rcases List.mem_cons.mp hd with rfl | hd
  · decide
  · rw [List.mem_singleton.mp hd]
    decide

/-- A reveal that answered sent its challenge to the device that is not revoked. -/
theorem live_device_challenged : ∃ (c : DeviceConfig)
    (t : Task DeviceOp (Except Problem DeviceReply)) (reply : DeviceReply) (at' : AppState)
    (past : List (Transition AppState DeviceOp)),
    Reachable (deviceSystem sampleEnv) unguarded guardedVault c ∧ t ∈ c.tasks ∧
    t.prog = .ret (.ok reply) ∧ Spared at' past liveDevice ∧ Answered sampleEnv t.hist := by
  let peer : PeerCredentials := ⟨none⟩
  let q : RevealRequest := ⟨sampleHandle, true, none⟩
  let version := sampleVersion 1 (sampleBlob sampleDek [1, 2, 3])
  let policy : NamespacePolicy := .balanced sampleNamespace.id
  let s₀ := guardedVault
  let s₁ : AppState := { s₀ with issued := sampleUuid 3 :: s₀.issued }
  have hversions : s₁.store.loadVersionsForSecret (sampleRow 1).id = [version] := by
    simp [Store.loadVersionsForSecret, s₁, s₀, guardedVault, sampleVault, version, sampleVersion, sampleRow]
  obtain ⟨s₂, hx, -⟩ := first_commit sampleCrates sampleReveal.allow sampleKey (sampleCall 1).draw
    s₁ rfl
  have h₀ := Reachable.here (deviceSystem sampleEnv) unguarded s₀
  have h₁ := h₀.start _ (.reveals peer q)
  have h₂ := h₁.alone true s₀ rfl trivial
  have h₃ := h₂.alone (.ok (some (sampleRow 1))) s₀ ⟨rfl, none, rfl⟩ trivial
  have h₄ := h₃.alone (.ok [version]) s₀ ⟨rfl, none, by rw [← hversions]; rfl⟩ trivial
  have h₅ := h₄.alone (.ok (some policy)) s₀ ⟨rfl, none, rfl⟩ trivial
  have h₆ := h₅.alone (some sampleKey) s₀ ⟨rfl, rfl⟩ trivial
  have h₇ := h₆.alone (.ok (some policy)) s₀ ⟨rfl, none, rfl⟩ trivial
  have hdevices : [lostDevice, liveDevice] = s₀.store.listCompanionDevices :=
    (listCompanionDevices_of_sorted s₀.store (by decide)).symm
  have h₈ := h₇.alone (.ok [lostDevice, liveDevice]) s₀ ⟨rfl, none, congrArg Except.ok hdevices⟩ trivial
  have h₉ := h₈.alone true s₀ rfl trivial
  have h₁₀ := h₉.alone (sampleUuid 3) s₁ ⟨by decide, rfl⟩ trivial
  have h₁₁ := h₁₀.alone epoch s₁ rfl trivial
  have h₁₂ := h₁₁.alone sampleKey s₁ rfl trivial
  have h₁₃ := h₁₂.alone (.ok ()) s₁ rfl trivial
  have h₁₄ := h₁₃.alone (.ok ⟨⟨sampleUuid 3⟩, .approved, none, none⟩) s₁ rfl trivial
  have h₁₅ := h₁₄.alone (.ok (some (sampleRow 1))) s₁ ⟨rfl, none, rfl⟩ trivial
  have h₁₆ := h₁₅.alone (.ok [version]) s₁ ⟨rfl, none, by rw [← hversions]; rfl⟩ trivial
  have h₁₇ := h₁₆.alone (some sampleKey) s₁ ⟨rfl, rfl⟩ trivial
  have h₁₈ := h₁₇.alone (.ok ()) s₂ ⟨_, _, hx⟩ trivial
  have h₁₉ := h₁₈.alone epoch s₂ rfl trivial
  obtain ⟨c₁, trace, s', -, -, -, hsent, hanswered⟩ :=
    reveal_spares_revoked guardedVault_keyed h₁₉ List.mem_cons_self rfl rfl
  obtain ⟨past, tr, post, -, -, -, -, hspared | ⟨-, hkey⟩⟩ := hsent _ (List.mem_append_left _
    (List.mem_append_left _ (List.mem_append_left _ (List.mem_append_left _ (List.mem_append_left _
    (List.mem_append_left _ List.mem_concat_self)))))) _ liveDevice rfl
  · exact ⟨_, _, _, tr.before, past, h₁₉, List.mem_cons_self, rfl, hspared, hanswered _ rfl⟩
  · exact absurd hkey (by decide)

end MerkleVault.Socket.DeviceReveals
