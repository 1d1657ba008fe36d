import MerkleVault.App.RestoreOnce
import MerkleVault.App.RestorePlans

/-! # The Backup Scheduler

A scheduler polls a counter of pending changes, backs up each namespace when the counter or the time
says so, and zeroes the counter when one of the backups went through.  Put, rotate and delete count
their change when its entry is committed; a rollback and a restore do not count theirs.

* `runBackupCheck`: one poll;
* `changes_accounted_of_reachable`: in what runs no change is forgotten;
* `rollback_forgotten`: a run in which one is. -/

namespace MerkleVault.App.BackupScheduler

open MerkleVault.Types MerkleVault.Lib.Program MerkleVault.Audit.Writer
open MerkleVault.Secrets.Aggregate MerkleVault.Sqlite.Tables
open MerkleVault.App.Context MerkleVault.App.SecretCommands MerkleVault.App.AuditCoverage
open MerkleVault.App.AuditDurability MerkleVault.App.Host MerkleVault.App.BackupCommands
open MerkleVault.App.Reveal MerkleVault.App.Restore MerkleVault.App.RestoreOnce
open MerkleVault.App.RestorePlans
open MerkleVault.Audit.Integrity

/-! ### The scheduler's state -/

/-- `AnacronState`: what the scheduler remembers between its checks. -/
structure AnacronState where
  lastBackupAt : Option Rfc3339Timestamp
  changeCountSinceLast : UInt32
  idleSince : Option Rfc3339Timestamp
  maxIntervalHours : UInt32
  changeThreshold : UInt32
  idleTimeoutMinutes : UInt32
deriving DecidableEq

namespace AnacronState

/-- `AnacronState::new`. -/
def new (maxIntervalHours changeThreshold idleTimeoutMinutes : UInt32) : AnacronState :=
  ⟨none, 0, none, maxIntervalHours, changeThreshold, idleTimeoutMinutes⟩

/-- The counter saturates. -/
def recordChange (s : AnacronState) : AnacronState :=
  { s with changeCountSinceLast :=
      if s.changeCountSinceLast = UInt32.ofNat (2 ^ 32 - 1) then s.changeCountSinceLast
      else s.changeCountSinceLast + 1 }

/-- `record_idle_window_start`: the first quiet moment is kept. -/
def recordIdleWindowStart (s : AnacronState) (now : Rfc3339Timestamp) : AnacronState :=
  if s.idleSince.isNone then { s with idleSince := some now } else s

/-- `record_backup_completed`. -/
def recordBackupCompleted (s : AnacronState) (now : Rfc3339Timestamp) : AnacronState :=
  { s with lastBackupAt := some now, changeCountSinceLast := 0, idleSince := none }

/-- The part of `touch_activity` that the scheduler sees: an open idle window is closed. -/
def touchActivity (s : AnacronState) : AnacronState :=
  if s.idleSince.isSome then { s with idleSince := none } else s

theorem recordChange_pos (s : AnacronState) : 0 < s.recordChange.changeCountSinceLast := by
  unfold recordChange
  dsimp only
  split_ifs with h
  · rw [h]
    decide
  · -- The sum does not wrap: the counter is below its maximum.
    have hne : s.changeCountSinceLast.toNat ≠ 2 ^ 32 - 1 :=
      fun he => h (UInt32.toNat_inj.mp (he.trans (by decide)))
    have hlt := s.changeCountSinceLast.toNat_lt
    rw [UInt32.lt_iff_toNat_lt, UInt32.toNat_add]
    change 0 < (s.changeCountSinceLast.toNat + 1) % 2 ^ 32
    omega

end AnacronState

/-- Why a backup is due. -/
inductive BackupTrigger
  | manual | changeTriggered | idleTriggered | anacronTriggered
deriving DecidableEq, Repr

/-- `DateTime::signed_duration_since` in nanoseconds: a leap second between the times of day counts. -/
def signedDurationSince (fin start : Rfc3339Timestamp) : Int :=
  let secs := fin.timestamp - start.timestamp
  let adjust : Int :=
    if start.timestamp % 86400 < fin.timestamp % 86400 then (if 1000000000 ≤ start.subsec then 1 else 0)
    else if fin.timestamp % 86400 < start.timestamp % 86400 then
      (if 1000000000 ≤ fin.subsec then -1 else 0)
    else 0
  (secs + adjust) * 1000000000 + ((fin.subsec : Int) - start.subsec)

/-- Whole units of so many seconds from one time to the other, none if it is the earlier. -/
def elapsed (unit : Nat) (start fin : Rfc3339Timestamp) : Nat :=
  (signedDurationSince fin start).toNat / 1000000000 / unit

/-- Whole minutes from one time to another. -/
def elapsedMinutes : Rfc3339Timestamp → Rfc3339Timestamp → Nat := elapsed 60

/-- Whole hours from one time to another. -/
def elapsedHours : Rfc3339Timestamp → Rfc3339Timestamp → Nat := elapsed 3600

/-- `BackupScheduler::should_trigger`. -/
def shouldTrigger (now : Rfc3339Timestamp) (s : AnacronState) : Option BackupTrigger :=
  if s.changeThreshold ≤ s.changeCountSinceLast then some .changeTriggered
  else if s.idleSince.any (fun t => s.idleTimeoutMinutes.toNat ≤ elapsedMinutes t now) ∧
      0 < s.changeCountSinceLast then some .idleTriggered
  else if s.lastBackupAt.all (fun t => s.maxIntervalHours.toNat ≤ elapsedHours t now) ∧
      0 < s.changeCountSinceLast then some .anacronTriggered
  else none

/-! ### The account

Counts for each namespace by which the runs are judged; the program does not have them. -/

/-- What has become of the changes of each namespace. -/
structure Account where
  /-- The changes that are committed. -/
  committed : NamespaceId → Nat
  /-- Those that the scheduler saw when it last listed the secrets. -/
  listed : NamespaceId → Nat
  /-- Those that a successful backup contains. -/
  saved : NamespaceId → Nat
  /-- Those that the successful backup of the check under way contains. -/
  backedUp : NamespaceId → Option Nat

namespace Account

/-- Nothing has changed and nothing is backed up. -/
def empty : Account := ⟨fun _ => 0, fun _ => 0, fun _ => 0, fun _ => none⟩

/-- A change of a namespace was committed. -/
def changed (a : Account) : Option NamespaceId → Account
  | some id => { a with committed := Function.update a.committed id (a.committed id + 1) }
  | none => a

/-- The scheduler listed a namespace with the changes it had. -/
def seen (a : Account) : Option NamespaceId → Account
  | some id => { a with listed := Function.update a.listed id (a.committed id) }
  | none => a

/-- A backup of a namespace was written, with the changes that were listed. -/
def backup (a : Account) : Option NamespaceId → Account
  | some id => { a with
      saved := Function.update a.saved id (max (a.saved id) (a.listed id))
      backedUp := Function.update a.backedUp id (some (a.listed id)) }
  | none => a

end Account

/-- The namespace that a write changes: a row that is updated keeps its own. -/
def changedIn (st : Store) : Write → Option NamespaceId
  | .putSecret s =>
    some (((st.secrets.find? fun row => row.id = s.id).map (·.namespaceId)).getD s.namespaceId)
  | .deleteSecret id => (st.secrets.find? fun row => row.id = id).map (·.namespaceId)
  | _ => none

/-- The namespace in which an action committed a change. -/
def changeOf (st : Store) {β : Type} (op : NodeOp β) (r : β) : Option NamespaceId :=
  (ofApp none (fun op r => mutationOf op r) op r).bind (changedIn st)

/-- The namespace that an action lists. -/
def listedIn {β : Type} : VaultOp β → β → Option NamespaceId
  | .selectNamespaceRows id, .ok _ => some id
  | _, _ => none

/-- The namespace whose secrets an action listed. -/
def listingOf {β : Type} : NodeOp β → β → Option NamespaceId
  | .vault op, r => listedIn op r
  | .app _, _ => none

/-- The namespace whose backup an action ended: the entry of a backup is its last action. -/
def backupOf {β : Type} (op : NodeOp β) (r : β) : Option NamespaceId :=
  ((ofApp none (fun op r => recordOf op r) op r).filter fun p =>
    p.op = .backup ∧ p.outcome = .allow).map (·.namespaceId)

/-! ### The agent -/

/-- The node and its scheduler. -/
structure Agent where
  node : Node
  anacron : AnacronState
  /-- The poll loop has a check under way. -/
  checking : Bool
  account : Account

/-- The actions of the commands and of the checks. -/
inductive AgentOp : Type → Type 1
  /-- An action of a command, of one that counts its change or of one that does not. -/
  | command (counts : Bool) {β : Type} (op : NodeOp β) : AgentOp β
  /-- An action of a check. -/
  | check {β : Type} (op : NodeOp β) : AgentOp β
  | recordVaultChange : AgentOp Unit
  | beginCheck : AgentOp Unit
  | endCheck : AgentOp Unit
  | touchActivity : AgentOp Unit
  /-- No activity for one poll interval. -/
  | quietForPoll : AgentOp Bool
  | recordIdleWindowStart (now : Rfc3339Timestamp) : AgentOp Unit
  | readAnacron : AgentOp AnacronState
  | prepareBackupDir : AgentOp String
  | listNamespaces : AgentOp (Except StorageError (List Namespace))
  | recordBackupCompleted (now : Rfc3339Timestamp) : AgentOp Unit

/-- What one action does to the agent; the account is bookkeeping beside it. -/
def agentExec (W : World) {β : Type} : AgentOp β → Agent → β → Agent → Prop
  | .command _ op, a, r, a' => nodeExec W op a.node r a'.node ∧
      a' = { a with node := a'.node, account := a.account.changed (changeOf a.node.app.store op r) }
  | .check op, a, r, a' => nodeExec W op a.node r a'.node ∧
      a' = { a with
        node := a'.node
        account := ((a.account.changed (changeOf a.node.app.store op r)).seen
          (listingOf op r)).backup (backupOf op r) }
  | .recordVaultChange, a, _, a' => a' = { a with anacron := a.anacron.recordChange }
  | .beginCheck, a, _, a' => a.checking = false ∧
      a' = { a with checking := true, account := { a.account with backedUp := fun _ => none } }
  | .endCheck, a, _, a' => a' = { a with checking := false }
  | .touchActivity, a, _, a' => a' = { a with anacron := a.anacron.touchActivity }
  | .quietForPoll, a, _, a' => a' = a
  | .recordIdleWindowStart now, a, _, a' =>
      a' = { a with anacron := a.anacron.recordIdleWindowStart now }
  | .readAnacron, a, r, a' => a' = a ∧ r = a.anacron
  | .prepareBackupDir, a, _, a' => a' = a
  | .listNamespaces, a, r, a' => a' = a ∧ ∃ fault rows,
      Ordered (fun a b => b.createdAt.lt a.createdAt = false) a.node.app.store.namespaces rows ∧
        r = faulty fault (.ok rows)
  | .recordBackupCompleted now, a, _, a' =>
      a' = { a with anacron := a.anacron.recordBackupCompleted now }

/-- A program of the agent. -/
abbrev AgentHandler (α : Type) := Cmd AgentOp NodeError α

/-- A command, of those that record their change or of the others. -/
def onCommand {α : Type} (counts : Bool) (x : NodeHandler α) : AgentHandler α :=
  embedded (AgentOp.command counts) id x

/-- A part of a check. -/
def onCheck {α : Type} (x : NodeHandler α) : AgentHandler α := embedded AgentOp.check id x

/-! ### A check -/

variable (W : World)

/-- The recovery recipient of the environment, where it is a real one. -/
def recoveryRecipient : NodeHandler String := do
  let recovery ← portCall .recoveryPubkey
  let trimmed := trim recovery.toList
  if trimmed.isEmpty || trimmed.tails.any ("placeholder".toList.isPrefixOf ·) ||
      !"age1".toList.isPrefixOf trimmed then
    failWith (.invalidInput ("vault recovery age recipient is missing or still a placeholder; " ++
      "configure MERKLE_RECOVERY_RECIPIENT and re-run init"))
  else return String.ofList trimmed

/-- `resolve_dual_recipients`. -/
def resolveDualRecipients : NodeHandler (String × String) := do
  let recovery ← recoveryRecipient
  let master ← ensureMasterRecipient W
  if master = recovery then
    failWith (.invalidInput "backup master and recovery age recipients must be distinct")
  else return (master, recovery)

/-- What a check did with one namespace. -/
inductive BackupNsOutcome
  | ok | skippedEmpty | failed
deriving DecidableEq, Repr

/-- The file name of a backup, by its time. -/
def backupFilename (now : Rfc3339Timestamp) : String :=
  "merkle-bk-" ++ String.ofList ((W.toRfc3339 now).toList.map fun c => if c = ':' then '-' else c) ++
    ".merkle.age"

/-- `Path::join` with a relative path. -/
def joinPath (dir file : String) : String :=
  if dir.toList.getLast? = some '/' || dir.isEmpty then dir ++ file else dir ++ "/" ++ file

/-- `backup_namespace`: a namespace without secrets is left out. -/
def backupNamespace (masterRecipient recoveryRecipient outputDir : String) (id : NamespaceId) :
    AgentHandler BackupNsOutcome := do
  match ← resultOf (onCheck (listSecrets id)) with
  | .error _ => return .failed
  | .ok secrets =>
    if secrets.isEmpty then return .skippedEmpty else
    let now ← onCheck (portCall .now)
    let cmd : TriggerBackupCommand :=
      ⟨id, masterRecipient, recoveryRecipient, joinPath outputDir (backupFilename W now)⟩
    match ← resultOf (onCheck (cmd.execute W)) with
    | .ok _ => return .ok
    | .error _ => return .failed

/-- Whether one of the backups went through. -/
def backupNamespaces (masterRecipient recoveryRecipient outputDir : String) :
    List Namespace → Bool → AgentHandler Bool
  | [], anyOk => return anyOk
  | ns :: rest, anyOk => do
    let outcome ← backupNamespace W masterRecipient recoveryRecipient outputDir ns.id
    backupNamespaces masterRecipient recoveryRecipient outputDir rest (anyOk || outcome = .ok)

/-- A quiet poll starts the idle window. -/
def maybeRecordIdleWindow : AgentHandler Unit := do
  if ← call .quietForPoll then
    call (.recordIdleWindowStart (← onCheck (portCall .now)))
  else return ()

/-- The part of a check after its trigger. -/
def runBackups : AgentHandler Unit := do
  match ← resultOf (onCheck (resolveDualRecipients W)) with
  | .error _ => return ()
  | .ok (master, recovery) =>
    let outputDir ← call .prepareBackupDir
    match ← call .listNamespaces with
    | .error _ => return ()
    | .ok namespaces =>
      if ← backupNamespaces W master recovery outputDir namespaces false then
        call (.recordBackupCompleted (← onCheck (portCall .now)))
      else return ()

/-- `run_backup_check`: one turn of the poll loop. -/
def runBackupCheck : AgentHandler Unit := do
  if ← onCheck (runInContext (call (.identity .isUnsealed))) then
    maybeRecordIdleWindow
    let now ← onCheck (portCall .now)
    match shouldTrigger now (← call .readAnacron) with
    | none => return ()
    | some _ => runBackups W
  else return ()

/-- One turn of the poll loop, which waits for its check. -/
def poll : AgentHandler (Option NodeReply) := do
  call .beginCheck
  runBackupCheck W
  call .endCheck
  return none

/-! ### The commands -/

/-- A command that counts its change when its entry is committed. -/
def counting (x : Handler Reply) : AgentHandler (Option NodeReply) := do
  let reply ← onCommand true (inReply x)
  call .recordVaultChange
  return some reply

/-- A command that does not. -/
def uncounting (x : NodeHandler NodeReply) : AgentHandler (Option NodeReply) := do
  return some (← onCommand false x)

/-- `touch_activity_middleware`. -/
def activity : AgentHandler (Option NodeReply) := do
  call .touchActivity
  return none

/-- The commands that change secrets, the poll loop, and the activity of any request. -/
inductive SchedulerClient : Prog AgentOp (Except NodeError (Option NodeReply)) → Prop
  | put (cmd : PutSecretCommand) : SchedulerClient (counting (cmd.execute W.toEnv)).run
  | rotate (cmd : RotateSecretCommand) : SchedulerClient (counting (cmd.execute W.toEnv)).run
  | delete (cmd : DeleteSecretCommand) : SchedulerClient (counting cmd.execute).run
  | rollback (cmd : RollbackSecretCommand) : SchedulerClient (uncounting (inReply cmd.execute)).run
  | restore (cmd : ExecuteRestoreCommand) : SchedulerClient (uncounting (cmd.execute W)).run
  | poll : SchedulerClient (poll W).run
  /-- The layer of the router that every request passes before its handler runs. -/
  | activity : SchedulerClient activity.run

/-- Commands and polls in any interleaving, in one life of the agent. -/
def schedulerSystem : System Agent AgentOp (Except NodeError (Option NodeReply)) where
  exec := agentExec W
  starts := SchedulerClient W
  restart _ _ := False

/-! ### What a check does -/

variable {W}

theorem only_reads_recoveryRecipient : Only reads recoveryRecipient.run := by
  refine only_except_bind (only_call trivial) fun recovery => ?_
  dsimp only
  split_ifs
  · exact only_throw _
  · exact only_pure _

theorem only_reads_resolveDualRecipients : Only reads (resolveDualRecipients W).run := by
  refine only_except_bind only_reads_recoveryRecipient fun recovery => ?_
  refine only_except_bind (only_reads_ensureMasterRecipient W) fun master => ?_
  split_ifs
  · exact only_throw _
  · exact only_pure _

theorem only_reads_recoveryWrap : Only reads (TriggerBackupCommand.recoveryWrap W).run := by
  refine only_except_bind (only_call trivial) fun r => ?_
  match r with
  | .ok blob => exact only_except_bind (only_ofExcept _ _) fun age => only_pure _
  | .error .notFound => exact only_pure _
  | .error .permissionDenied => exact only_throw _
  | .error (.persistenceFailed _ _) => exact only_throw _
  | .error (.backend _) => exact only_throw _

theorem only_reads_persist (cmd : TriggerBackupCommand) (secretCount : UInt32)
    (ciphertext : List UInt8) : Only reads (cmd.persist W secretCount ciphertext).run := by
  refine only_except_bind only_reads_requireHmacKey fun hmacKey => ?_
  split_ifs
  · exact only_throw _
  refine only_except_bind (only_attempt trivial) fun _ => ?_
  refine only_except_bind (only_call trivial) fun snapshotId => ?_
  refine only_except_bind (only_call trivial) fun createdAt => ?_
  refine only_except_bind (only_call trivial) fun id => ?_
  refine only_except_bind (only_call trivial) fun r => ?_
  cases r with
  | error e => exact only_except_bind (only_call trivial) fun _ => only_throw _
  | ok _ => exact only_except_bind (only_embedded (only_attempt trivial)) fun _ => only_pure _

/-- A backup changes no secret. -/
theorem only_reads_triggerBackup (cmd : TriggerBackupCommand) : Only reads (cmd.execute W).run := by
  refine only_except_bind only_reads_requireUnsealed fun _ => ?_
  split_ifs
  · exact only_throw _
  · exact only_throw _
  refine only_except_bind (only_reads_listSecrets _) fun secrets => ?_
  split_ifs
  · exact only_throw _
  · exact only_throw _
  refine only_except_bind only_reads_recoveryWrap fun vrkRecoveryAge => ?_
  refine only_except_bind (only_ofExcept _ _) fun plaintext => ?_
  refine only_except_bind (only_attempt trivial) fun ciphertext => ?_
  exact only_reads_persist cmd _ ciphertext

/-- The actions of the poll loop. -/
def polling {β : Type} : AgentOp β → Prop
  | .command _ _ => False
  | .check op => reads op
  | .recordVaultChange => False
  | _ => True

theorem only_polling_onCheck {α : Type} {x : NodeHandler α} (h : Only reads x.run) :
    Only polling (onCheck x).run := only_embedded h

theorem only_polling_now : Only polling (onCheck (portCall .now)).run :=
  only_polling_onCheck (only_call trivial)

theorem only_polling_backupNamespace (master recovery outputDir : String) (id : NamespaceId) :
    Only polling (backupNamespace W master recovery outputDir id).run := by
  refine only_except_bind (only_resultOf (only_polling_onCheck (only_reads_listSecrets id))) fun r => ?_
  cases r with
  | error e => exact only_pure _
  | ok secrets =>
    dsimp only
    split_ifs
    · exact only_pure _
    refine only_except_bind only_polling_now fun now => ?_
    refine only_except_bind (only_resultOf (only_polling_onCheck (only_reads_triggerBackup _)))
      fun r => ?_
    cases r with
    | error e => exact only_pure _
    | ok _ => exact only_pure _

theorem only_polling_backupNamespaces (master recovery outputDir : String) :
    ∀ (namespaces : List Namespace) (anyOk : Bool),
      Only polling (backupNamespaces W master recovery outputDir namespaces anyOk).run
  | [], _ => only_pure _
  | ns :: rest, _ =>
    only_except_bind (only_polling_backupNamespace master recovery outputDir ns.id) fun _ =>
      only_polling_backupNamespaces master recovery outputDir rest _

theorem only_polling_runBackups : Only polling (runBackups W).run := by
  refine only_except_bind (only_resultOf (only_polling_onCheck only_reads_resolveDualRecipients))
    fun r => ?_
  cases r with
  | error e => exact only_pure _
  | ok recipients =>
    refine only_except_bind (only_call trivial) fun outputDir => ?_
    refine only_except_bind (only_call trivial) fun r => ?_
    cases r with
    | error e => exact only_pure _
    | ok namespaces =>
      refine only_except_bind (only_polling_backupNamespaces _ _ _ _ _) fun anyOk => ?_
      cases anyOk with
      | false => exact only_pure _
      | true => exact only_except_bind only_polling_now fun now => only_call trivial

theorem only_polling_maybeRecordIdleWindow : Only polling maybeRecordIdleWindow.run := by
  refine only_except_bind (only_call trivial) fun quiet => ?_
  cases quiet with
  | false => exact only_pure _
  | true => exact only_except_bind only_polling_now fun now => only_call trivial

theorem only_polling_runBackupCheck : Only polling (runBackupCheck W).run := by
  refine only_except_bind (only_polling_onCheck (only_embedded (only_call trivial))) fun b => ?_
  cases b with
  | false => exact only_pure _
  | true =>
    refine only_except_bind only_polling_maybeRecordIdleWindow fun _ => ?_
    refine only_except_bind only_polling_now fun now => ?_
    refine only_except_bind (only_call trivial) fun state => ?_
    cases shouldTrigger now state with
    | none => exact only_pure _
    | some trigger => exact only_polling_runBackups

theorem only_polling_poll : Only polling (poll W).run := by
  refine only_except_bind (only_call trivial) fun _ => ?_
  refine only_except_bind only_polling_runBackupCheck fun _ => ?_
  exact only_except_bind (only_call trivial) fun _ => only_pure _

/-! ### Between a change and its count -/

/-- A command meets what ends it before it has recorded its change. -/
def breaksOff {β : Type} : Op β → β → Bool
  | .readHmacKey, r => r.isNone
  | .auditCommit _ _, r => !r.isOk
  | _, _ => false

/-- Whether a command has made its change and not broken off. -/
def changeMade : Monitor Op Bool where
  init := false
  allowed _ _ := True
  expects _ _ _ := True
  next m op r := (mutationOf op r).isSome || (m && !breaksOff op r)

/-- Whether changes are still uncounted after an action, as `monitor` follows one command. -/
def stepUncounted (m : Bool) {β : Type} : AgentOp β → β → Bool
  | .command true op, r => ofApp m (changeMade.next m) op r
  | .recordVaultChange, _ => false
  | _, _ => m

/-- A check reads. -/
def checkReads {β : Type} : AgentOp β → Prop
  | .check op => reads op
  | _ => True

/-- Whether a client stands between its change and its count. -/
def uncounted : Monitor AgentOp Bool where
  init := false
  allowed _ op := checkReads op
  expects _ _ _ := True
  next m op r := stepUncounted m op r

theorem idle_of_polling {β : Type} {op : AgentOp β} (h : polling op) : Idle uncounted.rules op := by
  intro m
  cases op with
  | command counts op => exact h.elim
  | recordVaultChange => exact h.elim
  | check op => exact ⟨h, fun _ _ hm => hm.2.symm⟩
  | _ => exact ⟨trivial, fun _ _ hm => hm.2.symm⟩

theorem poll_conforms : Conforms uncounted (poll W).run false fun m _ => m = false :=
  still_of_only idle_of_polling only_polling_poll false

theorem activity_conforms : Conforms uncounted activity.run false fun m _ => m = false :=
  have honly : Only polling activity.run := only_except_bind (only_call trivial) fun _ => only_pure _
  still_of_only idle_of_polling honly false

theorem uncounting_conforms (x : NodeHandler NodeReply) :
    Conforms uncounted (uncounting x).run false fun m _ => m = false := by
  have hstill : Still (uncounted.rules.pull (AgentOp.command false)) x :=
    still_of_only (A := fun _ => True) (fun _ _ => ⟨trivial, fun _ _ hm => hm.2.symm⟩)
      (only_of_forall fun _ => trivial)
  exact still_bind (still_embedded hstill) (fun _ => still_pure _) false

theorem changeMade_asks {β : Type} {op : Op β} (h : asks op) : Idle changeMade.rules op := by
  refine fun m => ⟨trivial, ?_⟩
  rintro r m' ⟨-, rfl⟩
  cases op with
  | write w => exact h.elim
  | auditCommit params key => exact h.elim
  | readHmacKey => exact h.elim
  | _ => simp [changeMade, mutationOf, breaksOff]

/-- A command that ends with an error has nothing left to count. -/
def BrokenOff (m : Bool) (r : Except AppError Reply) : Prop := ∀ e, r = .error e → m = false

theorem finish_conforms (p : AppendParams) (reply : Reply) (m : Bool) :
    Conforms changeMade (finish p reply).run m BrokenOff := by
  simp only [finish, requireHmacKey, auditCommit, wp_except_bind, wp_call, wp_orThrow, wp_attempt,
    wp_except_pure]
  refine ⟨trivial, ?_⟩
  rintro key m' ⟨-, rfl⟩
  refine ⟨fun k _ => ⟨trivial, ?_⟩, ?_⟩
  · rintro r m' ⟨-, rfl⟩
    cases r with
    | ok u => exact fun e he => absurd he.symm error_ne_ok
    | error e => exact fun _ _ => by simp [changeMade, mutationOf, breaksOff, Except.isOk, Except.toBool]
  · rintro rfl e -
    simp [changeMade, mutationOf, breaksOff]

theorem write_finish_conforms (w : Write) (p : AppendParams) (reply : Reply) :
    Conforms changeMade (write w >>= fun _ => finish p reply).run false BrokenOff := by
  refine wp_except_bind.mpr (wp_attempt.mpr ⟨trivial, ?_⟩)
  rintro r m ⟨-, rfl⟩
  cases r with
  | ok u => exact finish_conforms p reply _
  | error e => exact fun _ _ => by simp [changeMade, mutationOf, Except.isOk, Except.toBool]

theorem deny_conforms (op : AuditOp) (ns : NamespaceId) (handle : Handle) (sensitivity : Sensitivity)
    (reason : String) (e : AppError) :
    Conforms changeMade (deny op ns handle sensitivity reason e : Handler Reply).run false BrokenOff := by
  simp only [deny, requireHmacKey, auditCommit, wp_except_bind, wp_call, wp_orThrow, wp_attempt,
    wp_throw]
  refine ⟨trivial, ?_⟩
  rintro key m ⟨-, rfl⟩
  refine ⟨fun k _ => ⟨trivial, ?_⟩, fun _ _ _ => by simp [changeMade, mutationOf]⟩
  rintro r m ⟨-, rfl⟩
  cases r with
  | ok u => exact fun _ _ => by simp [changeMade, mutationOf]
  | error e => exact fun _ _ => by simp [changeMade, mutationOf]

/-- **A counting client** counts the change of a command that returns. -/
theorem counting_conforms {x : Handler Reply} (hx : Conforms changeMade x.run false BrokenOff) :
    Conforms uncounted (counting x).run false fun m _ => m = false := by
  refine wp_except_bind.mpr (wp_embedded.mpr (wp_except_bind.mpr (wp_embedded.mpr ?_)))
  refine Wp.mono ?_ hx
  intro m r hr
  cases r with
  | error e => exact hr e rfl
  | ok reply =>
    refine wp_except_bind.mpr (wp_call.mpr ⟨trivial, ?_⟩)
    rintro u m' ⟨-, rfl⟩
    rfl

theorem scheduler_conforms {p : Prog AgentOp (Except NodeError (Option NodeReply))}
    (h : SchedulerClient W p) : Conforms uncounted p uncounted.init fun m _ => m = false := by
  cases h with
  | put cmd =>
    exact counting_conforms (put_wp changeMade_asks cmd (fun _ _ _ => rfl)
      fun _ reply => write_finish_conforms _ _ reply)
  | rotate cmd =>
    exact counting_conforms (rotate_wp changeMade_asks cmd (fun _ _ _ => rfl)
      fun _ reply => write_finish_conforms _ _ reply)
  | delete cmd =>
    exact counting_conforms (delete_wp changeMade_asks cmd (fun _ _ _ => rfl)
      (fun _ _ _ => deny_conforms _ _ _ _ _ _) fun _ _ reply => write_finish_conforms _ _ reply)
  | rollback cmd => exact uncounting_conforms _
  | restore cmd => exact uncounting_conforms _
  | poll => exact poll_conforms
  | activity => exact activity_conforms

/-! ### Runs -/

/-- A change that no successful backup of its namespace contains is pending. -/
def Accounted (a : Agent) : Prop :=
  ∀ id, a.account.saved id < a.account.committed id → 0 < a.anacron.changeCountSinceLast

/-- Every change is in a successful backup. -/
def Account.Settled (a : Account) : Prop := ∀ id, a.committed id ≤ a.saved id

/-- The check under way backed up every change of the namespaces that have one to be backed up. -/
def Account.BackedUp (a : Account) : Prop :=
  ∀ id, a.backedUp id = some (a.committed id) ∨ a.backedUp id = none ∧ a.committed id ≤ a.saved id

/-- When so many clients stand between their change and their count:
a change that is not counted joins others that are, or that are about to be;
a command breaks off after its change when others are or are about to be, or when it is backed up;
the counter is zeroed when the check backed up every change, or when some are about to be counted. -/
def Careful (clients : ℕ) (m : Bool) (a : Agent) {β : Type} : AgentOp β → β → Prop
  | .command false op, r => (changeOf a.node.app.store op r).isSome →
      0 < a.anacron.changeCountSinceLast ∨ 0 < clients
  | .command true op, r => m = true → ofApp false breaksOff op r = true →
      0 < a.anacron.changeCountSinceLast ∨ 1 < clients ∨ a.account.Settled
  | .recordBackupCompleted _, _ => a.account.BackedUp ∨ 0 < clients
  | _, _ => True

/-- The agent, the commands and checks under way, and what they have returned. -/
abbrev SchedulerConfig := Config Agent AgentOp (Except NodeError (Option NodeReply))

/-- The clients that stand between their change and their count. -/
def uncountedIn (c : SchedulerConfig) : ℕ := (monitors uncounted c.tasks).count true

/-- Nobody but the commands themselves changes the vault while a change is uncounted. -/
def careful (c : SchedulerConfig) : Guard Agent AgentOp := fun hist a e =>
  Careful (uncountedIn c) (uncounted.after hist) a e.op e.res

theorem changeOf_of_reads {β : Type} {op : NodeOp β} (h : reads op) (st : Store) (r : β) :
    changeOf st op r = none := by
  cases op with
  | app op =>
    cases op with
    | write w => exact h.elim
    | _ => rfl
  | vault op => rfl

/-- What the check under way backed up is saved. -/
def Account.Saves (a : Account) : Prop := ∀ id k, a.backedUp id = some k → k ≤ a.saved id

theorem Account.Saves.backup {a : Account} (h : a.Saves) (id : Option NamespaceId) :
    (a.backup id).Saves := by
  cases id with
  | none => exact h
  | some id =>
    intro id' k hk
    simp only [Account.backup] at hk ⊢
    by_cases hid : id' = id
    · subst hid
      rw [Function.update_self] at hk ⊢
      obtain rfl := Option.some.inj hk
      exact le_max_right _ _
    · rw [Function.update_of_ne hid] at hk ⊢
      exact h id' k hk

theorem Account.saved_backup (a : Account) (o : Option NamespaceId) (id : NamespaceId) :
    a.saved id ≤ (a.backup o).saved id ∧ (a.backup o).committed id = a.committed id := by
  cases o with
  | none => exact ⟨le_rfl, rfl⟩
  | some id' =>
    refine ⟨?_, rfl⟩
    simp only [Account.backup]
    by_cases hid : id = id'
    · subst hid
      rw [Function.update_self]
      exact le_max_left _ _
    · rw [Function.update_of_ne hid]

theorem Account.Saves.settled {a : Account} (h : a.Saves) (hb : a.BackedUp) : a.Settled := by
  intro id
  rcases hb id with hid | ⟨-, hle⟩
  · exact h id _ hid
  · exact hle

theorem Account.Settled.accounted {a : Agent} (h : a.account.Settled) : Accounted a :=
  fun id hlt => absurd (h id) (Nat.not_le.mpr hlt)

theorem accounted_of_pos {a : Agent} (h : 0 < a.anacron.changeCountSinceLast) : Accounted a :=
  fun _ _ => h

/-- The invariant: a client is about to count, or nothing is forgotten. -/
def Kept (a : Agent) (ms : List Bool) : Prop :=
  a.account.Saves ∧ (0 < ms.count true ∨ Accounted a)

/-- A step that leaves the changes and the counter as they are, or more in backups. -/
theorem Kept.quiet {a a' : Agent} {ms : List Bool} (h : Kept a ms) (hsaves : a'.account.Saves)
    (hcount : a'.anacron.changeCountSinceLast = a.anacron.changeCountSinceLast)
    (hcommitted : ∀ id, a'.account.committed id = a.account.committed id)
    (hsaved : ∀ id, a.account.saved id ≤ a'.account.saved id) : Kept a' ms := by
  refine ⟨hsaves, h.2.imp_right fun hacc id hlt => ?_⟩
  rw [hcount]
  refine hacc id ?_
  have hle := hsaved id
  rw [hcommitted] at hlt
  omega

theorem count_set_true {ms : List Bool} {i : ℕ} {m : Bool} (hi : ms[i]? = some m) :
    0 < (ms.set i true).count true := by
  obtain ⟨hlt, -⟩ := List.getElem?_eq_some_iff.mp hi
  exact List.count_pos_iff.mpr (List.mem_set hlt true)

theorem set_self {ms : List Bool} {i : ℕ} {m : Bool} (hi : ms[i]? = some m) : ms.set i m = ms := by
  obtain ⟨hlt, rfl⟩ := List.getElem?_eq_some_iff.mp hi
  exact List.set_getElem_self hlt

/-- Where another client is about to count, one still is. -/
theorem count_set_false {ms : List Bool} {i : ℕ} {m : Bool} (hi : ms[i]? = some m)
    (h : 1 < ms.count true) : 0 < (ms.set i false).count true := by
  obtain ⟨hlt, -⟩ := List.getElem?_eq_some_iff.mp hi
  have hcount := List.count_set (a := false) (b := true) hlt
  have hle : (if ms[i] == true then 1 else 0) ≤ 1 := by split_ifs <;> decide
  have hzero : (if (false == true) = true then 1 else 0) = 0 := rfl
  omega

/-- What an action of a command makes of its client. -/
theorem stepUncounted_command (counts m : Bool) {β : Type} (op : NodeOp β) (r : β) :
    stepUncounted m (.command counts op) r = true ∨ stepUncounted m (.command counts op) r = m ∨
      (counts = true ∧ m = true ∧ ofApp false breaksOff op r = true) ∧
        stepUncounted m (.command counts op) r = false := by
  cases counts with
  | false => exact .inr (.inl rfl)
  | true =>
    cases op with
    | vault op => exact .inr (.inl rfl)
    | app op =>
      change changeMade.next m op r = true ∨ changeMade.next m op r = m ∨
        (true = true ∧ m = true ∧ breaksOff op r = true) ∧ changeMade.next m op r = false
      by_cases hmut : (mutationOf op r).isSome = true
      · exact .inl (by simp [changeMade, hmut])
      by_cases hbreak : breaksOff op r = true
      · cases m with
        | false => exact .inr (.inl (by simp [changeMade, hmut]))
        | true => exact .inr (.inr ⟨⟨rfl, rfl, hbreak⟩, by simp [changeMade, hmut, hbreak]⟩)
      · exact .inr (.inl (by simp [changeMade, hmut, hbreak]))

/-- A counting command that makes a change is about to count it. -/
theorem stepUncounted_change {β : Type} {op : NodeOp β} {r : β} {st : Store} {m : Bool}
    (h : (changeOf st op r).isSome) : stepUncounted m (.command true op) r = true := by
  cases op with
  | vault op => cases h
  | app op =>
    cases hmut : mutationOf op r with
    | none => simp [changeOf, ofApp, hmut] at h
    | some w => simp [stepUncounted, ofApp, changeMade, hmut]

/-- An action of a command that makes no change. -/
theorem Kept.command {counts : Bool} {β : Type} {op : NodeOp β} {a a' : Agent} {r : β}
    {ms : List Bool} {m : Bool} {i : ℕ} (h : Kept a ms) (hi : ms[i]? = some m)
    (hg : Careful (ms.count true) m a (.command counts op) r) (ha : a'.account = a.account)
    (hcounter : a'.anacron = a.anacron) :
    Kept a' (ms.set i (stepUncounted m (.command counts op) r)) := by
  have hsame : Kept a' ms := h.quiet (ha ▸ h.1) (by rw [hcounter]) (fun _ => by rw [ha])
    fun _ => by rw [ha]
  rcases stepUncounted_command counts m op r with hnext | hnext | ⟨⟨rfl, rfl, hbreak⟩, hnext⟩
  · rw [hnext]
    exact ⟨hsame.1, .inl (count_set_true hi)⟩
  · rw [hnext, set_self hi]
    exact hsame
  · rw [hnext]
    refine ⟨hsame.1, ?_⟩
    rcases hg rfl hbreak with hpos | hothers | hsettled
    · exact .inr (accounted_of_pos (hcounter ▸ hpos))
    · exact .inl (count_set_false hi hothers)
    · exact .inr (Account.Settled.accounted (ha ▸ hsettled))

/-- An action of a command that makes a change. -/
theorem Kept.change {counts : Bool} {β : Type} {op : NodeOp β} {a a' : Agent} {r : β}
    {ms : List Bool} {m : Bool} {i : ℕ} {id : NamespaceId} (h : Kept a ms) (hi : ms[i]? = some m)
    (hg : Careful (ms.count true) m a (.command counts op) r)
    (hchange : changeOf a.node.app.store op r = some id)
    (ha : a'.account = a.account.changed (some id)) (hcounter : a'.anacron = a.anacron) :
    Kept a' (ms.set i (stepUncounted m (.command counts op) r)) := by
  have hsaves : a'.account.Saves := ha ▸ h.1
  have hsome : (changeOf a.node.app.store op r).isSome := by simp [hchange]
  refine ⟨hsaves, ?_⟩
  cases counts with
  | true =>
    rw [stepUncounted_change hsome]
    exact .inl (count_set_true hi)
  | false =>
    rw [show stepUncounted m (.command false op) r = m from rfl, set_self hi]
    rcases hg hsome with hpos | hclients
    · exact .inr (accounted_of_pos (hcounter ▸ hpos))
    · exact .inl hclients

/-- **One step of a careful run.** -/
theorem Kept.step {β : Type} {op : AgentOp β} {a a' : Agent} {r : β} {ms : List Bool} {m : Bool}
    {i : ℕ} (h : Kept a ms) (hi : ms[i]? = some m) (hreads : checkReads op)
    (hx : agentExec W op a r a') (hg : Careful (ms.count true) m a op r) :
    Kept a' (ms.set i (stepUncounted m op r)) := by
  cases op with
  | command counts op =>
    obtain ⟨-, hx⟩ := hx
    have hcounter : a'.anacron = a.anacron := by rw [hx]
    have haccount : a'.account = a.account.changed (changeOf a.node.app.store op r) := by rw [hx]
    cases hchange : changeOf a.node.app.store op r with
    | none => exact h.command hi hg (by rw [haccount, hchange]; rfl) hcounter
    | some id => exact h.change hi hg hchange (by rw [haccount, hchange]) hcounter
  | check op =>
    obtain ⟨-, hx⟩ := hx
    rw [changeOf_of_reads hreads] at hx
    rw [show stepUncounted m (.check op) r = m from rfl, set_self hi]
    have haccount : a'.account = (a.account.seen (listingOf op r)).backup (backupOf op r) := by
      rw [hx]
      rfl
    have hseen : ∀ o : Option NamespaceId, (a.account.seen o).Saves ∧
        (a.account.seen o).committed = a.account.committed ∧
        (a.account.seen o).saved = a.account.saved := by
      rintro (- | id)
      · exact ⟨h.1, rfl, rfl⟩
      · exact ⟨h.1, rfl, rfl⟩
    obtain ⟨hsaves, hcommitted, hsaved⟩ := hseen (listingOf op r)
    refine h.quiet (haccount ▸ hsaves.backup _) (by rw [hx]) (fun id => ?_) fun id => ?_
    · rw [haccount, (Account.saved_backup _ _ id).2, hcommitted]
    · rw [haccount, ← hsaved]
      exact (Account.saved_backup _ _ id).1
  | recordVaultChange =>
    obtain rfl : a' = _ := hx
    exact ⟨h.1, .inr (accounted_of_pos a.anacron.recordChange_pos)⟩
  | recordBackupCompleted now =>
    obtain rfl : a' = _ := hx
    rw [show stepUncounted m (.recordBackupCompleted now) r = m from rfl, set_self hi]
    refine ⟨h.1, ?_⟩
    rcases hg with hbacked | hclients
    · exact .inr (Account.Settled.accounted (h.1.settled hbacked))
    · exact .inl hclients
  | beginCheck =>
    obtain ⟨-, rfl⟩ := hx
    rw [show stepUncounted m .beginCheck r = m from rfl, set_self hi]
    exact h.quiet (fun _ _ hk => nomatch hk) rfl (fun _ => rfl) fun _ => le_rfl
  | recordIdleWindowStart now =>
    obtain rfl : a' = _ := hx
    rw [show stepUncounted m (.recordIdleWindowStart now) r = m from rfl, set_self hi]
    refine h.quiet h.1 ?_ (fun _ => rfl) fun _ => le_rfl
    simp only [AnacronState.recordIdleWindowStart]
    split_ifs <;> rfl
  | touchActivity =>
    obtain rfl : a' = _ := hx
    rw [show stepUncounted m .touchActivity r = m from rfl, set_self hi]
    refine h.quiet h.1 ?_ (fun _ => rfl) fun _ => le_rfl
    simp only [AnacronState.touchActivity]
    split_ifs <;> rfl
  | endCheck =>
    obtain rfl : a' = _ := hx
    rw [show stepUncounted m .endCheck r = m from rfl, set_self hi]
    exact h.quiet h.1 rfl (fun _ => rfl) fun _ => le_rfl
  | quietForPoll =>
    obtain rfl : a' = _ := hx
    rwa [show stepUncounted m .quietForPoll r = m from rfl, set_self hi]
  | readAnacron =>
    obtain ⟨rfl, -⟩ := hx
    rwa [show stepUncounted m .readAnacron r = m from rfl, set_self hi]
  | prepareBackupDir =>
    obtain rfl : a' = _ := hx
    rwa [show stepUncounted m .prepareBackupDir r = m from rfl, set_self hi]
  | listNamespaces =>
    obtain ⟨rfl, -⟩ := hx
    rwa [show stepUncounted m .listNamespaces r = m from rfl, set_self hi]

/-- **No change is forgotten in a careful run**: in every state in which no client stands between its
change and its count, a change that no successful backup contains is pending. -/
theorem changes_accounted_of_reachable (W : World) (a₀ : Agent) (h₀ : a₀.account = .empty)
    (c : SchedulerConfig) (h : Overseen (schedulerSystem W) careful a₀ c)
    (hquiet : uncountedIn c = 0) : Accounted c.state := by
  have hinit : Kept a₀ [] := by
    refine ⟨?_, .inr (Account.Settled.accounted ?_)⟩
    · rw [h₀]
      exact fun _ _ hk => nomatch hk
    · rw [h₀]
      exact fun _ => le_rfl
  obtain ⟨⟨-, hclients | hacc⟩, -⟩ := h.rule uncounted (fun _ m _ => m = false) Kept hinit
    (fun p hp => scheduler_conforms hp)
    (by
      intro a ms hI
      refine ⟨hI.1, hI.2.imp_left fun hpos => ?_⟩
      rw [List.count_append]
      omega)
    (by
      intro β op hist c s' r i hI hi hallowed hx hg
      exact ⟨trivial, hI.step hi hallowed hx hg⟩)
    (by
      intro a a' ms _ hr
      exact hr.elim)
  · rw [← uncountedIn, hquiet] at hclients
    omega
  · exact hacc

/-! ### Runs that change one secret -/

/-- A backup without secrets. -/
def samplePayload₀ : BackupPlaintext := ⟨none, []⟩

/-- An agent that has just started, with one secret and nothing to be backed up. -/
def sampleAgent : Agent where
  node := sampleUnplanned samplePayload₀ (sampleSecrets [samplePut 12 11 epoch])
  anacron := .new 24 10 30
  checking := false
  account := .empty

/-- A confirmed delete of the sample secret. -/
def sampleDelete : DeleteSecretCommand := ⟨sampleNamespace.id, sampleHandle, true⟩

/-- A confirmed rollback of the sample secret to its first version. -/
def sampleRollback : RollbackSecretCommand := ⟨sampleNamespace.id, sampleHandle, 1, true⟩

theorem sample_loadVersions :
    (sampleSecrets [samplePut 12 11 epoch]).loadVersionsForSecret ⟨sampleUuid 12⟩ =
      (samplePut 12 11 epoch).versions :=
  congrArg Secret.versions (sampleSecrets_loaded (samplePut_wellVersioned 12 11 epoch))

/-- The secret after its rollback. -/
def sampleRolledBack : Secret := { samplePut 12 11 epoch with
  versions := (samplePut 12 11 epoch).versions.map (setDeprecated epoch) ++
    [⟨⟨sampleUuid 13⟩, ⟨sampleUuid 12⟩, 2, sampleBlob sampleKey [11], 1, epoch, none⟩]
  currentVersionId := ⟨sampleUuid 13⟩ }

/-- A rollback that returns: its change is committed and nothing is pending. -/
theorem rollback_forgotten : ∃ (c : SchedulerConfig)
    (t : Task AgentOp (Except NodeError (Option NodeReply))),
    Overseen (schedulerSystem (sampleWorld samplePayload₀)) (fun _ => unguarded) sampleAgent c ∧
    c.tasks = [t] ∧ t.source = (uncounting (inReply sampleRollback.execute)).run ∧
    t.prog = .ret (.ok (some (.app (.rolledBack 2)))) ∧ uncountedIn c = 0 ∧ ¬ Accounted c.state := by
  let u := sampleUuid 13
  let n := sampleAgent.node
  let n₁ : Node := { n with app := { n.app with issued := [u] } }
  obtain ⟨store, hstore⟩ : ∃ store, n.app.store.putSecret sampleRolledBack = .ok store := ⟨_, rfl⟩
  have haudit : store.auditEntries = [] := by
    obtain rfl := Except.ok.inj hstore
    rfl
  let n₂ : Node := { n₁ with app := { n₁.app with store := store } }
  let a₂ : Agent := { sampleAgent with
    node := n₂
    account := Account.empty.changed (some sampleNamespace.id) }
  obtain ⟨app, hcommit, -⟩ := first_commit (sampleWorld samplePayload₀).toCrates
    (rotated sampleNamespace.id sampleHandle .medium) sampleKey (sampleCall 1).draw n₂.app haudit
  have h₀ := Overseen.here (schedulerSystem (sampleWorld samplePayload₀)) (fun _ => unguarded) sampleAgent
  have h₁ := h₀.start _ (.rollback sampleRollback)
  have h₂ := h₁.act 0 rfl true sampleAgent ⟨⟨rfl, rfl⟩, rfl⟩ trivial
  have h₃ := h₂.act 0 rfl (.ok (some (rowOf (samplePut 12 11 epoch)))) sampleAgent
    ⟨⟨⟨rfl, none, rfl⟩, rfl⟩, rfl⟩ trivial
  have h₄ := h₃.act 0 rfl (.ok (samplePut 12 11 epoch).versions) sampleAgent
    ⟨⟨⟨rfl, none, congrArg Except.ok sample_loadVersions.symm⟩, rfl⟩, rfl⟩ trivial
  have h₅ := h₄.act 0 rfl u { sampleAgent with node := n₁ } ⟨⟨⟨List.not_mem_nil, rfl⟩, rfl⟩, rfl⟩ trivial
  have h₆ := h₅.act 0 rfl epoch { sampleAgent with node := n₁ } ⟨rfl, rfl⟩ trivial
  have hwrite : writeSection (.putSecret sampleRolledBack) none n₁.app = (.ok (), n₂.app) :=
    writeSection_ok hstore
  have h₇ := h₆.act 0 rfl (.ok ()) a₂ ⟨⟨⟨none, hwrite⟩, rfl⟩, rfl⟩ trivial
  have h₈ := h₇.act 0 rfl (some sampleKey) a₂ ⟨⟨⟨rfl, rfl⟩, rfl⟩, rfl⟩ trivial
  have h₉ := h₈.act 0 rfl (.ok ()) { a₂ with node := { n₂ with app := app } }
    ⟨⟨⟨(sampleCall 1).draw, none, hcommit⟩, rfl⟩, rfl⟩ trivial
  refine ⟨_, _, h₉, rfl, rfl, rfl, rfl, fun hacc => ?_⟩
  have hpos : (0 : UInt32) < 0 := hacc sampleNamespace.id Nat.zero_lt_one
  exact absurd hpos (by decide)

/-- The same secret deleted by a client that counts its change. -/
theorem delete_counted : ∃ c : SchedulerConfig,
    sampleAgent.account = .empty ∧
    Overseen (schedulerSystem (sampleWorld samplePayload₀)) careful sampleAgent c ∧
    uncountedIn c = 0 ∧ c.state.account.committed sampleNamespace.id = 1 ∧
    c.state.account.saved sampleNamespace.id = 0 ∧ Accounted c.state := by
  let n := sampleAgent.node
  obtain ⟨store, hstore⟩ : ∃ store, n.app.store.deleteSecret ⟨sampleUuid 12⟩ = .ok store := ⟨_, rfl⟩
  have haudit : store.auditEntries = [] := by
    obtain rfl := Except.ok.inj hstore
    rfl
  let n₁ : Node := { n with app := { n.app with store := store } }
  let a₁ : Agent := { sampleAgent with
    node := n₁, account := Account.empty.changed (some sampleNamespace.id) }
  obtain ⟨app, hcommit, -⟩ := first_commit (sampleWorld samplePayload₀).toCrates
    (sampleDelete.allow .medium) sampleKey (sampleCall 1).draw n₁.app haudit
  have hwrite : writeSection (.deleteSecret ⟨sampleUuid 12⟩) none n.app = (.ok (), n₁.app) :=
    writeSection_ok hstore
  let a₂ : Agent := { a₁ with node := { n₁ with app := app } }
  have h₀ := Overseen.here (schedulerSystem (sampleWorld samplePayload₀)) careful sampleAgent
  have h₁ := h₀.start _ (.delete sampleDelete)
  have h₂ := h₁.act 0 rfl true sampleAgent ⟨⟨rfl, rfl⟩, rfl⟩ (fun h => nomatch h)
  have h₃ := h₂.act 0 rfl (.ok (some (rowOf (samplePut 12 11 epoch)))) sampleAgent
    ⟨⟨⟨rfl, none, rfl⟩, rfl⟩, rfl⟩ (fun h => nomatch h)
  have h₄ := h₃.act 0 rfl (.ok (samplePut 12 11 epoch).versions) sampleAgent
    ⟨⟨⟨rfl, none, congrArg Except.ok sample_loadVersions.symm⟩, rfl⟩, rfl⟩ (fun h => nomatch h)
  have h₅ := h₄.act 0 rfl (.ok ()) a₁ ⟨⟨⟨none, hwrite⟩, rfl⟩, rfl⟩ (fun h => nomatch h)
  have h₆ := h₅.act 0 rfl (some sampleKey) a₁ ⟨⟨⟨rfl, rfl⟩, rfl⟩, rfl⟩ (fun _ h => nomatch h)
  have h₇ := h₆.act 0 rfl (.ok ()) a₂ ⟨⟨⟨(sampleCall 1).draw, none, hcommit⟩, rfl⟩, rfl⟩
    (fun _ h => nomatch h)
  have h₈ := h₇.act 0 rfl () { a₂ with anacron := a₂.anacron.recordChange } rfl trivial
  exact ⟨_, rfl, h₈, rfl, rfl, rfl, changes_accounted_of_reachable _ sampleAgent rfl _ h₈ rfl⟩

end MerkleVault.App.BackupScheduler
