import MerkleVault.App.Restore

/-! # Executions of One Plan

A restore reads whether its plan is applied, puts its secrets one transaction at a time, and marks the
plan.  Nothing is undone: an execution that fails after its first write leaves that write, and two
executions that both read the plan before either marks it both write.  Here any number of executions
of one plan run in any order.

* `restore_all_or_nothing`: when an execution that wrote does not fail any more, and at most one at a
  time is past its check, an execution that fails wrote nothing, one execution at most writes, and one
  at most returns;
* `replayed`: the tables that a list of writes leaves. -/

namespace MerkleVault.App.RestoreOnce

open MerkleVault.Types MerkleVault.External MerkleVault.Lib.Program MerkleVault.Audit.Integrity
open MerkleVault.Secrets.Aggregate MerkleVault.Sqlite.Tables MerkleVault.App.Context
open MerkleVault.App.Host MerkleVault.App.BackupCommands MerkleVault.App.Restore
open MerkleVault.App.AuditDurability MerkleVault.App.Reveal

/-! ### Writes -/

/-- A write of an execution that succeeded. -/
inductive RestoreWrite
  | put (secret : Secret)
  | marked (id : Uuid) (appliedAt : Rfc3339Timestamp)

/-- A secret that was written. -/
def putEvent {β : Type} : Op β → β → Option RestoreWrite
  | .write (.putSecret secret), r => if r.isOk then some (.put secret) else none
  | _, _ => none

/-- A plan that was marked. -/
def markEvent {β : Type} : VaultOp β → β → Option RestoreWrite
  | .markRestorePlanApplied id appliedAt, r => if r.isOk then some (.marked id appliedAt) else none
  | _, _ => none

/-- A write of a restore that succeeded. -/
def writeEvent {β : Type} : NodeOp β → β → Option RestoreWrite
  | .app op, r => putEvent op r
  | .vault op, r => markEvent op r

/-- The writes of an execution, in order. -/
def writesOf (hist : List (Event NodeOp)) : List RestoreWrite := collect writeEvent hist

/-- A read of the plan that finds it not applied. -/
def unapplied {β : Type} : VaultOp β → β → Bool
  | .restorePlanAppliedAt _, .ok none => true
  | _, _ => false

/-- The check of the plan that lets an execution go on. -/
def passes {β : Type} : NodeOp β → β → Option Unit
  | .app _, _ => none
  | .vault op, r => if unapplied op r then some () else none

/-- The execution read that its plan is not applied. -/
def Passed (hist : List (Event NodeOp)) : Prop := collect passes hist ≠ []

/-! ### The tables -/

/-- The store without its audit chain. -/
def content (st : Store) : Store := { st with auditEntries := [], pinnedHead := none }

/-- What restores write: the store and the plans. -/
abbrev Tables := Store × List RestorePlanRow

/-- The tables that a restore writes. -/
def tables (n : Node) : Tables := (content n.app.store, n.restorePlans)

/-- What one write leaves of the tables. -/
def RestoreWrite.apply : RestoreWrite → Tables → Except StorageError Tables
  | .put secret, t => (t.1.putSecret secret).map fun st => (st, t.2)
  | .marked id appliedAt, t => (markApplied t.2 id appliedAt).map fun rows => (t.1, rows)

/-- The tables after the writes. -/
def replayed (writes : List RestoreWrite) (t : Tables) : Except StorageError Tables :=
  writes.foldlM (fun t w => w.apply t) t

theorem replayed_concat {writes : List RestoreWrite} {w : RestoreWrite} {t t₁ t₂ : Tables}
    (h : replayed writes t = .ok t₁) (hw : w.apply t₁ = .ok t₂) :
    replayed (writes ++ [w]) t = .ok t₂ := by
  unfold replayed at h ⊢
  rw [List.foldlM_append, h]
  change (w.apply t₁ >>= pure) = _
  rw [hw]
  rfl

theorem upsertSecretRow_content {st st' : Store} {secret : Secret}
    (h : upsertSecretRow st secret = .ok st') :
    upsertSecretRow (content st) secret = .ok (content st') := by
  unfold upsertSecretRow at h
  split_ifs at h with h₁ h₂ h₃
  · obtain rfl := Except.ok.inj h
    exact (if_neg h₁).trans (if_pos h₂)
  · obtain rfl := Except.ok.inj h
    exact (if_neg h₁).trans ((if_neg h₂).trans (if_neg h₃))

theorem putSecret_content {st st' : Store} {secret : Secret} (h : st.putSecret secret = .ok st') :
    (content st).putSecret secret = .ok (content st') := by
  obtain ⟨st₁, vs, hrow, hversions, rfl⟩ := putSecret_ok h
  have hv : (content st₁).versions = st.versions := by
    rw [upsertSecretRow_ok hrow]
    rfl
  unfold Store.putSecret
  rw [upsertSecretRow_content hrow]
  change (secret.versions.foldlM (upsertVersionWithParent secret.id) (content st₁).versions >>=
    fun vs => Except.ok { content st₁ with versions := vs }) = _
  rw [hv, hversions]
  rfl

/-- The actions of the context but its writes leave the content of the store. -/
theorem exec_content {K : Crates} {β : Type} {op : Op β} {s s' : AppState} {r : β}
    (hx : exec K op s r s') (hw : writeOf op = none) : content s'.store = content s.store := by
  cases op with
  | identity o =>
    obtain ⟨-, rfl⟩ := Prod.mk.inj hx
    rfl
  | readHmacKey => rw [hx.2]
  | writeHmacKey key =>
    obtain rfl : s' = _ := hx
    rfl
  | auditCommit params key =>
    obtain ⟨draw, fault, hx⟩ := hx
    rw [auditCommitSection_eq hx]
    rfl
  | installHead p =>
    obtain rfl : s' = _ := hx
    rfl
  | query q => rw [hx.1]
  | write w => cases hw
  | newUuid => rw [hx.2]
  | registerUseToken key token =>
    obtain rfl : s' = _ := hx
    rfl
  | consumeUseToken key handle =>
    obtain ⟨now, hx⟩ := hx
    rw [consumeUseTokenSection_eq hx]
  | port p => rw [show s' = s from hx]

theorem appExec_plans {W : World} {β : Type} {op : Op β} {n n' : Node} {r : β}
    (h : appExec W op n r n') : n'.restorePlans = n.restorePlans := by
  cases op with
  | port p => rw [portExec_frame h]
  | _ => rw [h.2]

theorem vaultExec_tables {β : Type} {op : VaultOp β} {n n' : Node} {r : β}
    (h : vaultExec op n r n') (hw : markEvent op r = none) : tables n' = tables n := by
  cases op with
  | lockInit => rw [h.2]; rfl
  | unlockInit =>
    obtain rfl : n' = _ := h
    rfl
  | randomBytes16 => rw [show n' = n from h]
  | generateAgeIdentity => rw [show n' = n from h]
  | masterPassphraseVar => rw [show n' = n from h]
  | selectNamespaceRows id => rw [h.1]
  | getRestorePlan id => rw [h.1]
  | restorePlanAppliedAt id => rw [h.1]
  | markRestorePlanApplied id appliedAt =>
    obtain ⟨fault, h⟩ := h
    split at h
    · rw [h.1] at hw
      cases hw
    · rw [h.2]
  | listBackups id => rw [h.1]
  | putBackup backup => rcases h with ⟨-, rfl⟩ | ⟨rfl, -⟩ <;> rfl
  | persistArtifact path contents => rcases h with ⟨-, -, rfl⟩ | ⟨rfl, -⟩ <;> rfl
  | revokeUseTokens =>
    rw [h.2]
    rfl

/-! ### The executions -/

/-- Clients execute one plan. -/
inductive RestoreClient (W : World) (planId : Uuid) : Prog NodeOp (Except NodeError NodeReply) → Prop
  | execute : RestoreClient W planId ((ExecuteRestoreCommand.mk planId).execute W).run

/-- Any number of executions of one plan, and everything else that does not restore. -/
def restoreSystem (W : World) (planId : Uuid) : System Node NodeOp (Except NodeError NodeReply) :=
  nodeSystem W (RestoreClient W planId) fun _ _ => False

/-- The transactions of a restore succeed. -/
def appSucceeds {β : Type} : Op β → β → Prop
  | .write _, r => r.isOk = true
  | .auditCommit _ _, r => r.isOk = true
  | _, _ => True

/-- A mark succeeds. -/
def vaultSucceeds {β : Type} : VaultOp β → β → Prop
  | .markRestorePlanApplied _ _, r => r.isOk = true
  | _, _ => True

/-- A write of a restore succeeds. -/
def Succeeds {β : Type} : NodeOp β → β → Prop
  | .app op, r => appSucceeds op r
  | .vault op, r => vaultSucceeds op r

/-- An execution that wrote fails no more. -/
def carriesThrough : Guard Node NodeOp := fun hist _ e =>
  writesOf hist ≠ [] → Succeeds e.op e.res

/-- The execution is between its check and its end. -/
def Inside (t : Task NodeOp (Except NodeError NodeReply)) : Prop := Passed t.hist ∧ ¬ t.Ended

/-- At most one execution at a time is past its check. -/
def OneInside (c : Config Node NodeOp (Except NodeError NodeReply)) : Prop :=
  ∀ (i j : ℕ) (ti tj : Task NodeOp (Except NodeError NodeReply)), c.tasks[i]? = some ti →
    c.tasks[j]? = some tj → Inside ti → Inside tj → i = j

/-! ### What an execution does -/

/-- The execution passed its check, and its writes so far. -/
structure Execution where
  passed : Bool
  writes : List RestoreWrite

/-- It writes only after its check, and marks only its plan. -/
def MayPut (m : Execution) {β : Type} : Op β → Prop
  | .write w => m.passed = true ∧ ∃ secret, w = .putSecret secret
  | _ => True

/-- Only the execution's own plan is asked about and, once the check passed, marked. -/
def MayMark (planId : Uuid) (m : Execution) {β : Type} : VaultOp β → Prop
  | .markRestorePlanApplied id _ => m.passed = true ∧ id = planId
  | .restorePlanAppliedAt id => id = planId
  | _ => True

/-- What an execution may write at this point. -/
def MayWrite (planId : Uuid) (m : Execution) {β : Type} : NodeOp β → Prop
  | .app op => MayPut m op
  | .vault op => MayMark planId m op

/-- The rules of one execution: what it passed and what it wrote. -/
def execution (planId : Uuid) : Monitor NodeOp Execution where
  init := ⟨false, []⟩
  allowed m op := MayWrite planId m op
  expects m op r := m.writes ≠ [] → Succeeds op r
  next m op r := ⟨m.passed || (passes op r).isSome, m.writes ++ (writeEvent op r).toList⟩

/-- The plan is marked by an execution that returns; one that fails wrote nothing. -/
def Finished (planId : Uuid) (m : Execution) : Except NodeError NodeReply → Prop
  | .ok _ => ∃ appliedAt, .marked planId appliedAt ∈ m.writes
  | .error _ => m.writes = []

theorem execution_after (planId : Uuid) (hist : List (Event NodeOp)) :
    ((execution planId).after hist).passed = !(collect passes hist).isEmpty ∧
      ((execution planId).after hist).writes = writesOf hist := by
  induction hist using List.reverseRecOn with
  | nil => exact ⟨rfl, rfl⟩
  | append_singleton hist e ih =>
    obtain ⟨hpassed, hwrites⟩ := ih
    rw [Monitor.after_concat]
    constructor
    · change (_ || (passes e.op e.res).isSome) = _
      rw [hpassed, collect_concat]
      cases passes e.op e.res <;> simp
    · change _ ++ (writeEvent e.op e.res).toList = _
      rw [hwrites, writesOf, writesOf, collect_concat]

section Conformance

variable {planId : Uuid}

/-- The rules alone. -/
abbrev executing (planId : Uuid) : Rules NodeOp Execution := (execution planId).rules

/-- The actions of the context. -/
abbrev executingContext (planId : Uuid) : Rules Op Execution := (executing planId).pull NodeOp.app

/-- Actions that neither check nor write. -/
def appReads {β : Type} : Op β → Prop
  | .write _ => False
  | _ => True

/-- An action of the agent that neither asks whether a plan was applied nor marks one. -/
def vaultReads {β : Type} : VaultOp β → Prop
  | .markRestorePlanApplied _ _ => False
  | .restorePlanAppliedAt _ => False
  | _ => True

/-- An action that neither checks nor writes. -/
def reads {β : Type} : NodeOp β → Prop
  | .app op => appReads op
  | .vault op => vaultReads op

theorem next_of_reads {β : Type} (op : NodeOp β) (h : reads op) (m : Execution) (r : β) :
    (execution planId).next m op r = m := by
  have hquiet : passes op r = none ∧ writeEvent op r = none := by
    cases op with
    | app op =>
      cases op with
      | write w => exact h.elim
      | _ => exact ⟨rfl, rfl⟩
    | vault op =>
      cases op with
      | markRestorePlanApplied id appliedAt => exact h.elim
      | restorePlanAppliedAt id => exact h.elim
      | _ => exact ⟨rfl, rfl⟩
  change (⟨m.passed || (passes op r).isSome, m.writes ++ (writeEvent op r).toList⟩ : Execution) = m
  rw [hquiet.1, hquiet.2]
  simp

theorem mayWrite_of_reads {β : Type} {op : NodeOp β} (h : reads op) (m : Execution) :
    MayWrite planId m op := by
  cases op with
  | app op =>
    cases op with
    | write w => exact h.elim
    | _ => trivial
  | vault op =>
    cases op with
    | markRestorePlanApplied id appliedAt => exact h.elim
    | restorePlanAppliedAt id => exact h.elim
    | _ => trivial

/-- Programs that only read leave the execution where it is. -/
theorem still_of_reads {α : Type} {x : NodeHandler α} (h : Only reads x.run) :
    Still (executing planId) x := by
  refine still_of_only (fun hop m => ⟨mayWrite_of_reads hop m, ?_⟩) h
  rintro r m' ⟨-, rfl⟩
  exact next_of_reads _ hop m r

theorem only_reads_requireUnsealed : Only reads (runInContext requireUnsealed).run := by
  refine only_embedded (only_except_bind (only_call trivial) fun b => ?_)
  cases b with
  | true => exact only_pure ()
  | false => exact only_throw _

theorem only_reads_requireHmacKey : Only reads (runInContext requireHmacKey).run :=
  only_embedded (only_except_bind (only_call trivial) fun _ => only_orThrow _ _)

theorem only_reads_ageText (W : World) (item start : String) (bytes : List UInt8) :
    Only reads (ageText W item start bytes).run := by
  refine only_except_bind (only_ofExcept _ _) fun text => ?_
  dsimp only
  split_ifs
  · exact only_throw _
  · exact only_pure _

theorem only_reads_ensureMasterRecipient (W : World) : Only reads (ensureMasterRecipient W).run := by
  refine only_except_bind (only_call trivial) fun r => ?_
  match r with
  | .ok bytes => exact only_reads_ageText W _ _ bytes
  | .error .notFound =>
    refine only_except_bind (only_call trivial) fun _ => ?_
    refine only_except_bind (only_attempt trivial) fun _ => ?_
    exact only_except_bind (only_attempt trivial) fun _ => only_pure _
  | .error .permissionDenied => exact only_throw _
  | .error (.persistenceFailed _ _) => exact only_throw _
  | .error (.backend _) => exact only_throw _

theorem only_reads_loadMasterIdentity (W : World) : Only reads (loadMasterIdentity W).run := by
  refine only_except_bind (only_reads_ensureMasterRecipient W) fun _ => ?_
  refine only_except_bind (only_call trivial) fun r => ?_
  match r with
  | .ok bytes => exact only_reads_ageText W _ _ bytes
  | .error .notFound => exact only_throw _
  | .error .permissionDenied => exact only_throw _
  | .error (.persistenceFailed _ _) => exact only_throw _
  | .error (.backend _) => exact only_throw _

theorem only_reads_readArtifact (W : World) (backup : Backup) (namespaceId : NamespaceId) :
    Only reads (readArtifact W backup namespaceId).run := by
  refine only_except_bind (only_attempt trivial) fun ciphertext => ?_
  refine only_except_bind only_reads_requireHmacKey fun key => ?_
  split_ifs
  · refine only_except_bind (only_embedded ?_) fun _ => only_throw _
    exact only_attempt trivial
  · refine only_except_bind (only_reads_loadMasterIdentity W) fun identity => ?_
    refine only_except_bind (only_attempt trivial) fun plaintext => ?_
    exact only_except_bind (only_ofExcept _ _) fun _ => only_pure _

theorem only_reads_loadSecrets : ∀ rows : List SecretRow, Only appReads (loadSecrets rows).run
  | [] => only_pure []
  | _ :: rows => only_except_bind (only_attempt trivial) fun _ =>
      only_except_bind (only_reads_loadSecrets rows) fun _ => only_pure _

theorem only_reads_listSecrets (id : NamespaceId) : Only reads (listSecrets id).run :=
  only_except_bind (only_attempt trivial) fun rows => only_embedded (only_reads_loadSecrets rows)

/-- The loop fails only before its first write. -/
theorem applySecrets_conforms (plan : RestorePlan) (live : List Handle) :
    ∀ {secrets : List Secret} {count : UInt32} {m : Execution}, m.passed = true →
      Wp (executingContext planId) (applySecrets plan live secrets count).run m fun m' r =>
        m'.passed = true ∧ ∀ e, r = .error e → m'.writes = []
  | [], _, _, hm => ⟨hm, fun _ he => absurd he.symm error_ne_ok⟩
  | secret :: rest, count, m, hm => by
    rw [applySecrets]
    cases restoredAs plan live secret with
    | none => exact applySecrets_conforms plan live hm
    | some s =>
      rw [wp_except_bind, write, wp_attempt]
      refine ⟨⟨hm, s, rfl⟩, ?_⟩
      rintro r _ ⟨hr, rfl⟩
      have hpassed : (m.passed || false) = true := by rw [hm, Bool.true_or]
      cases r with
      | ok u => exact applySecrets_conforms plan live hpassed
      | error e =>
        refine ⟨hpassed, fun _ _ => ?_⟩
        -- A put that fails is the first write of the execution.
        by_contra hne
        have hwrote : m.writes ≠ [] := fun hnil => hne ((List.append_nil _).trans hnil)
        exact absurd (hr hwrote) Bool.false_ne_true

/-- The part after the loop. -/
theorem finish_conforms (namespaceId : NamespaceId) (key : Key) (restored : UInt32) {m : Execution}
    (hm : m.passed = true) :
    Wp (executing planId) (do
      let appliedAt ← portCall .now
      storageCall (.markRestorePlanApplied planId appliedAt)
      runInContext (auditCommit { op := .restore, outcome := .allow, namespaceId := namespaceId
                                  callerProgram := agent } key)
      return NodeReply.restored restored namespaceId : NodeHandler NodeReply).run m
      (Finished planId) := by
  rw [wp_except_bind, portCall, wp_call]
  refine ⟨trivial, ?_⟩
  rintro appliedAt _ ⟨-, rfl⟩
  dsimp only
  rw [next_of_reads (.app (.port .now)) trivial, wp_except_bind, storageCall, wp_attempt]
  refine ⟨⟨hm, rfl⟩, ?_⟩
  rintro r _ ⟨hr, rfl⟩
  cases r with
  | error e =>
    by_contra hne
    have hwrote : m.writes ≠ [] := fun hnil => hne ((List.append_nil _).trans hnil)
    exact absurd (hr hwrote) Bool.false_ne_true
  | ok u =>
    have hmarked : RestoreWrite.marked planId appliedAt ∈
        m.writes ++ [RestoreWrite.marked planId appliedAt] := by simp
    rw [wp_except_bind, runInContext, wp_embedded, auditCommit, wp_attempt]
    refine ⟨trivial, ?_⟩
    rintro r _ ⟨hr, rfl⟩
    cases r with
    | error e => exact absurd (hr (List.ne_nil_of_mem hmarked)) Bool.false_ne_true
    | ok u => exact ⟨appliedAt, List.mem_append_left _ hmarked⟩

/-- The plan is not applied when it is returned. -/
theorem checkedPlan_conforms {m : Execution} (hm : m.writes = []) :
    Wp (executing planId) (ExecuteRestoreCommand.mk planId).checkedPlan.run m fun m' r =>
      m'.writes = [] ∧ ∀ a, r = .ok a → m'.passed = true := by
  have hfail : ∀ {α : Type} (e : NodeError), m.writes = [] ∧
      ∀ a : α, (.error e : Except NodeError α) = .ok a → m.passed = true :=
    fun _ => ⟨hm, fun _ ha => nomatch ha⟩
  refine wp_still_bind (still_of_reads (only_attempt trivial)) (fun found => ?_) hfail
  refine wp_still_bind (still_orThrow _ _) (fun plan => ?_) hfail
  refine wp_still_bind (still_of_reads (only_call trivial)) (fun now => ?_) hfail
  by_cases hexp : plan.isExpiredAt now = true
  · rw [if_pos hexp]
    exact hfail _
  rw [if_neg hexp, wp_except_bind, storageCall, wp_attempt]
  refine ⟨rfl, ?_⟩
  rintro r _ ⟨hr, rfl⟩
  have hwrites : m.writes ++ [] = [] := by rw [hm, List.append_nil]
  match r with
  | .error e => exact ⟨hwrites, fun _ ha => nomatch ha⟩
  | .ok (some appliedAt) => exact ⟨hwrites, fun _ ha => nomatch ha⟩
  | .ok none =>
    have hpassed : (m.passed || true) = true := Bool.or_true _
    change Wp (executing planId) (if plan.hasHaltConflict then _ else _ : NodeHandler _).run _ _
    split_ifs
    · exact ⟨hwrites, fun _ ha => nomatch ha⟩
    · refine wp_still_bind (still_orThrow _ _) (fun _ => ?_) fun _ =>
        ⟨hwrites, fun _ ha => nomatch ha⟩
      exact ⟨hwrites, fun _ _ => hpassed⟩

/-- **An execution that returns marked its plan, one that fails wrote nothing.** -/
theorem execute_conforms (W : World) :
    Conforms (execution planId) ((ExecuteRestoreCommand.mk planId).execute W).run
      (execution planId).init (Finished planId) := by
  refine wp_still_bind (still_of_reads only_reads_requireUnsealed) (fun _ => ?_) fun _ => rfl
  rw [wp_except_bind]
  refine (checkedPlan_conforms rfl).mono ?_
  rintro m r ⟨hwrites, hpassed⟩
  cases r with
  | error e => exact hwrites
  | ok result =>
    have hpassed := hpassed result rfl
    refine wp_still_bind (still_of_reads (only_attempt trivial)) (fun backups => ?_) fun _ => hwrites
    refine wp_still_bind (still_orThrow _ _) (fun backup => ?_) fun _ => hwrites
    refine wp_still_bind (still_of_reads (only_reads_readArtifact W backup _)) (fun read => ?_)
      fun _ => hwrites
    refine wp_still_bind (still_of_reads (only_reads_listSecrets _)) (fun live => ?_) fun _ => hwrites
    rw [wp_except_bind, runInContext, wp_embedded]
    refine (applySecrets_conforms _ _ hpassed).mono ?_
    rintro m' r ⟨hpassed', herr⟩
    cases r with
    | error e => exact herr e rfl
    | ok restored => exact finish_conforms _ _ restored hpassed'

end Conformance

/-! ### What actions do to the tables -/

section Steps

variable {W : World} {planId : Uuid} {m : Execution} {β : Type} {op : NodeOp β} {n n' : Node} {r : β}

/-- Actions that are no writes leave the tables. -/
theorem tables_frame (hmay : MayWrite planId m op) (hx : nodeExec W op n r n')
    (hw : writeEvent op r = none) : tables n' = tables n := by
  cases op with
  | vault op => exact vaultExec_tables hx hw
  | app op =>
    have hx' := appExec_exec hx
    refine Prod.ext ?_ (appExec_plans hx)
    cases op with
    | write w =>
      obtain ⟨-, secret, rfl⟩ := hmay
      obtain ⟨fault, hwrite⟩ := hx'
      rcases writeSection_eq hwrite with ⟨rfl, -⟩ | ⟨-, happ⟩
      · cases hw
      · exact congrArg (fun s => content s.store) happ
    | _ => exact exec_content hx' rfl

/-- Writes do to the tables what they say. -/
theorem tables_write {w : RestoreWrite} (hx : nodeExec W op n r n')
    (hw : writeEvent op r = some w) : w.apply (tables n) = .ok (tables n') := by
  cases op with
  | app op =>
    cases op with
    | write w' =>
      cases w' with
      | putSecret secret =>
        have hx' : exec W.toCrates (.write (.putSecret secret)) n.app r n'.app := appExec_exec hx
        obtain ⟨fault, hwrite⟩ := hx'
        rcases writeSection_eq hwrite with ⟨rfl, store, hput, happ⟩ | ⟨⟨e, rfl⟩, -⟩
        · obtain rfl := Option.some.inj hw
          have hput' : (tables n).1.putSecret secret = .ok (content store) := putSecret_content hput
          have hplans : n'.restorePlans = n.restorePlans := by rw [hx.2]
          rw [RestoreWrite.apply, hput', tables, tables, happ, hplans]
          rfl
        · cases hw
      | _ => cases hw
    | _ => cases hw
  | vault op =>
    cases op with
    | markRestorePlanApplied id appliedAt =>
      obtain ⟨fault, hx⟩ := hx
      split at hx
      · next rows hrows =>
        obtain ⟨rfl, rfl⟩ := hx
        obtain rfl := Option.some.inj hw
        have hmark : markApplied n.restorePlans id appliedAt = .ok rows := (faulty_ok hrows).2
        change (markApplied n.restorePlans id appliedAt).map _ = _
        rw [hmark]
        rfl
      · rw [hx.1] at hw
        cases hw
    | _ => cases hw

/-- The plan is applied. -/
def Applied (planId : Uuid) (plans : List RestorePlanRow) : Prop :=
  ((plans.find? fun row => row.plan.id = planId).bind (·.appliedAt)).isSome = true

theorem applied_of_mark {rows plans : List RestorePlanRow} {appliedAt : Rfc3339Timestamp}
    (h : markApplied rows planId appliedAt = .ok plans) : Applied planId plans := by
  unfold markApplied at h
  split_ifs at h with hany
  obtain rfl := Except.ok.inj h
  obtain ⟨row, hrow, hid⟩ := List.any_eq_true.mp hany
  have hfound : (rows.find? fun row => row.plan.id = planId).isSome = true := by
    rw [List.find?_isSome]
    exact ⟨row, hrow, by simp_all⟩
  obtain ⟨first, hfirst⟩ := Option.isSome_iff_exists.mp hfound
  have hplan : first.plan.id = planId := by simpa using List.find?_some hfirst
  have hids : ((fun row : RestorePlanRow => decide (row.plan.id = planId)) ∘ fun r =>
      if r.plan.id = planId ∧ r.appliedAt.isNone then { r with appliedAt := some appliedAt } else r) =
      fun row => decide (row.plan.id = planId) := by
    funext r
    dsimp only [Function.comp]
    split_ifs <;> rfl
  rw [Applied, List.find?_map, hids, hfirst]
  simp only [Option.map_some, Option.bind_some, hplan, true_and]
  split_ifs with hnone
  · rfl
  · simpa [Option.isSome_iff_ne_none] using hnone

/-- A check that passes finds the plan not applied. -/
theorem unapplied_of_passes (hmay : MayWrite planId m op) (hx : nodeExec W op n r n')
    (hp : (passes op r).isSome = true) : ¬ Applied planId n.restorePlans := by
  cases op with
  | app op => cases hp
  | vault op =>
    cases op with
    | restorePlanAppliedAt id =>
      obtain rfl : id = planId := hmay
      obtain ⟨-, fault, hr⟩ := hx
      match r with
      | .ok none =>
        have hnone := Except.ok.inj (faulty_ok hr.symm).2
        rw [Applied, hnone]
        exact Bool.false_ne_true
      | .ok (some _) => cases hp
      | .error _ => cases hp
    | _ => cases hp

end Steps

/-! ### The invariant -/

/-- At most one execution wrote, and the tables are those at the start with its writes. -/
structure Settled (planId : Uuid) (n₀ : Node)
    (c : Config Node NodeOp (Except NodeError NodeReply)) : Prop where
  passed : ∀ (i : ℕ) (t : Task NodeOp (Except NodeError NodeReply)), c.tasks[i]? = some t →
    writesOf t.hist ≠ [] → Passed t.hist
  marked : ∀ (i : ℕ) (t : Task NodeOp (Except NodeError NodeReply)), c.tasks[i]? = some t →
    ∀ appliedAt, .marked planId appliedAt ∈ writesOf t.hist → Applied planId c.state.restorePlans
  one : ∀ (i j : ℕ) (ti tj : Task NodeOp (Except NodeError NodeReply)), c.tasks[i]? = some ti →
    c.tasks[j]? = some tj → writesOf ti.hist ≠ [] → writesOf tj.hist ≠ [] → i = j
  /-- The others that passed their check ended. -/
  alone : ∀ (i j : ℕ) (ti tj : Task NodeOp (Except NodeError NodeReply)), c.tasks[i]? = some ti →
    c.tasks[j]? = some tj → writesOf ti.hist ≠ [] → Passed tj.hist → i ≠ j → tj.Ended
  clean : (∀ (i : ℕ) (t : Task NodeOp (Except NodeError NodeReply)), c.tasks[i]? = some t →
    writesOf t.hist = []) → tables c.state = tables n₀
  replay : ∀ (i : ℕ) (t : Task NodeOp (Except NodeError NodeReply)), c.tasks[i]? = some t →
    writesOf t.hist ≠ [] → replayed (writesOf t.hist) (tables n₀) = .ok (tables c.state)

section Invariant

variable {planId : Uuid} {n₀ s s' : Node} {ts : List (Task NodeOp (Except NodeError NodeReply))}
  {t t' : Task NodeOp (Except NodeError NodeReply)} {k : ℕ}

/-- An execution starts. -/
theorem Settled.start (h : Settled planId n₀ ⟨s, ts⟩) (ht : t.hist = []) :
    Settled planId n₀ ⟨s, ts ++ [t]⟩ := by
  have hold : ∀ {j : ℕ} {tj : Task NodeOp (Except NodeError NodeReply)},
      (ts ++ [t])[j]? = some tj → writesOf tj.hist ≠ [] ∨ Passed tj.hist → ts[j]? = some tj := by
    intro j tj hj hne
    rcases getElem?_concat_some hj with hj | rfl
    · exact hj
    · rw [ht] at hne
      rcases hne with hne | hne <;> exact absurd rfl hne
  constructor
  · intro i ti hi hw
    exact h.passed i ti (hold hi (.inl hw)) hw
  · intro i ti hi appliedAt hin
    exact h.marked i ti (hold hi (.inl (List.ne_nil_of_mem hin))) appliedAt hin
  · intro i j ti tj hi hj hwi hwj
    exact h.one i j ti tj (hold hi (.inl hwi)) (hold hj (.inl hwj)) hwi hwj
  · intro i j ti tj hi hj hw hp hij
    exact h.alone i j ti tj (hold hi (.inl hw)) (hold hj (.inr hp)) hw hp hij
  · intro hall
    refine h.clean fun i ti hi => hall i ti ?_
    rw [List.getElem?_append_left (List.getElem?_eq_some_iff.mp hi).1]
    exact hi
  · intro i ti hi hw
    exact h.replay i ti (hold hi (.inl hw)) hw

/-- **An action that is no write.** -/
theorem Settled.quiet (h : Settled planId n₀ ⟨s, ts⟩) (hk : ts[k]? = some t)
    (hwrites : writesOf t'.hist = writesOf t.hist) (hpassed : Passed t.hist → Passed t'.hist)
    (htables : tables s' = tables s)
    (halone : ∀ (i : ℕ) (ti : Task NodeOp (Except NodeError NodeReply)), ts[i]? = some ti →
      writesOf ti.hist ≠ [] → Passed t'.hist → i ≠ k → t'.Ended) :
    Settled planId n₀ ⟨s', ts.set k t'⟩ := by
  -- Each execution has the writes that it had.
  have hold : ∀ {j : ℕ} {tj : Task NodeOp (Except NodeError NodeReply)},
      (ts.set k t')[j]? = some tj → ∃ tj₀, ts[j]? = some tj₀ ∧ writesOf tj₀.hist = writesOf tj.hist ∧
        (Passed tj₀.hist → Passed tj.hist) := by
    intro j tj hj
    rcases getElem?_set_some hj with ⟨rfl, rfl⟩ | ⟨-, hj⟩
    · exact ⟨t, hk, hwrites.symm, hpassed⟩
    · exact ⟨tj, hj, rfl, id⟩
  have hplans : s'.restorePlans = s.restorePlans := congrArg Prod.snd htables
  constructor
  · intro i ti hi hw
    obtain ⟨ti₀, hi₀, hwi, hpi⟩ := hold hi
    exact hpi (h.passed i ti₀ hi₀ (hwi ▸ hw))
  · intro i ti hi appliedAt hin
    obtain ⟨ti₀, hi₀, hwi, -⟩ := hold hi
    change Applied planId s'.restorePlans
    rw [hplans]
    exact h.marked i ti₀ hi₀ appliedAt (hwi ▸ hin)
  · intro i j ti tj hi hj hw hw'
    obtain ⟨ti₀, hi₀, hwi, -⟩ := hold hi
    obtain ⟨tj₀, hj₀, hwj, -⟩ := hold hj
    exact h.one i j ti₀ tj₀ hi₀ hj₀ (hwi ▸ hw) (hwj ▸ hw')
  · intro i j ti tj hi hj hw hp hij
    obtain ⟨ti₀, hi₀, hwi, -⟩ := hold hi
    rcases getElem?_set_some hj with ⟨rfl, rfl⟩ | ⟨-, hj⟩
    · exact halone i ti₀ hi₀ (hwi ▸ hw) hp hij
    · exact h.alone i j ti₀ tj hi₀ hj (hwi ▸ hw) hp hij
  · intro hall
    refine htables.trans (h.clean fun i ti hi => ?_)
    by_cases hik : i = k
    · subst hik
      obtain rfl := Option.some.inj (hk.symm.trans hi)
      rw [← hwrites]
      exact hall i t' (List.getElem?_set_self (List.getElem?_eq_some_iff.mp hi).1)
    · refine hall i ti ?_
      rw [List.getElem?_set_ne fun heq => hik heq.symm]
      exact hi
  · intro i ti hi hw
    obtain ⟨ti₀, hi₀, hwi, -⟩ := hold hi
    rw [← hwi] at hw ⊢
    change _ = Except.ok (tables s')
    rw [htables]
    exact h.replay i ti₀ hi₀ hw

/-- **A write.** -/
theorem Settled.write {w : RestoreWrite} (h : Settled planId n₀ ⟨s, ts⟩) (hone : OneInside ⟨s, ts⟩)
    (hk : ts[k]? = some t) (hpassed : Passed t.hist) (hrun : ¬ t.Ended)
    (hwrites : writesOf t'.hist = writesOf t.hist ++ [w]) (hpassed' : Passed t'.hist)
    (happly : w.apply (tables s) = .ok (tables s'))
    (hplans : (∃ secret, w = .put secret) ∧ s'.restorePlans = s.restorePlans ∨
      Applied planId s'.restorePlans) :
    Settled planId n₀ ⟨s', ts.set k t'⟩ := by
  -- The execution passed its check and runs, so no other wrote.
  have hothers : ∀ {j : ℕ} {tj : Task NodeOp (Except NodeError NodeReply)}, ts[j]? = some tj →
      writesOf tj.hist ≠ [] → j = k := by
    intro j tj hj hw
    by_contra hjk
    exact hrun (h.alone j k tj t hj hk hw hpassed hjk)
  have hnew : ∀ {j : ℕ} {tj : Task NodeOp (Except NodeError NodeReply)},
      (ts.set k t')[j]? = some tj → writesOf tj.hist ≠ [] → j = k ∧ tj = t' := by
    intro j tj hj hw
    rcases getElem?_set_some hj with hj | ⟨hne, hj⟩
    · exact hj
    · exact absurd (hothers hj hw) hne
  have hreplay : replayed (writesOf t.hist ++ [w]) (tables n₀) = .ok (tables s') := by
    refine replayed_concat ?_ happly
    by_cases hw : writesOf t.hist = []
    · rw [hw]
      refine congrArg Except.ok (h.clean fun i ti hi => ?_).symm
      by_contra hne
      obtain rfl := hothers hi hne
      obtain rfl := Option.some.inj (hk.symm.trans hi)
      exact hne hw
    · exact h.replay k t hk hw
  constructor
  · intro i ti hi hw
    obtain ⟨-, rfl⟩ := hnew hi hw
    exact hpassed'
  · intro i ti hi appliedAt hin
    obtain ⟨-, rfl⟩ := hnew hi (List.ne_nil_of_mem hin)
    rw [hwrites] at hin
    rcases hplans with ⟨⟨secret, rfl⟩, hplans⟩ | happlied
    · change Applied planId s'.restorePlans
      rw [hplans]
      exact h.marked k t hk appliedAt (by simpa using hin)
    · exact happlied
  · intro i j ti tj hi hj hwi hwj
    exact (hnew hi hwi).1.trans (hnew hj hwj).1.symm
  · intro i j ti tj hi hj hw hp hij
    obtain ⟨rfl, -⟩ := hnew hi hw
    rcases getElem?_set_some hj with ⟨rfl, -⟩ | ⟨hne, hj⟩
    · exact absurd rfl hij
    · by_contra hends
      exact hne (hone j i tj t hj hk ⟨hp, hends⟩ ⟨hpassed, hrun⟩)
  · intro hall
    have hnil := hall k t' (List.getElem?_set_self (List.getElem?_eq_some_iff.mp hk).1)
    rw [hwrites] at hnil
    exact absurd hnil (List.append_ne_nil_of_right_ne_nil _ (List.cons_ne_nil _ _))
  · intro i ti hi hw
    obtain ⟨-, rfl⟩ := hnew hi hw
    rw [hwrites]
    exact hreplay

end Invariant

/-! ### Runs -/

section Run

variable {W : World} {planId : Uuid} {n₀ : Node}
  {c c' : Config Node NodeOp (Except NodeError NodeReply)}

theorem passed_iff (hist : List (Event NodeOp)) :
    ((execution planId).after hist).passed = true ↔ Passed hist := by
  rw [(execution_after planId hist).1, Passed]
  simp

theorem Passed.append {hist : List (Event NodeOp)} (h : Passed hist) (e : Event NodeOp) :
    Passed (hist ++ [e]) := by
  rw [Passed, collect_concat]
  exact List.append_ne_nil_of_left_ne_nil h _

/-- A write is made past the check, and the plan that is marked is the one that is executed. -/
theorem write_allowed {m : Execution} {β : Type} {op : NodeOp β} {r : β} {w : RestoreWrite}
    (hmay : MayWrite planId m op) (hw : writeEvent op r = some w) :
    m.passed = true ∧ ∀ id appliedAt, w = .marked id appliedAt → id = planId := by
  cases op with
  | app op =>
    cases op with
    | write w' =>
      obtain ⟨hpassed, secret, rfl⟩ := hmay
      refine ⟨hpassed, ?_⟩
      rintro id appliedAt rfl
      change (if _ then some (RestoreWrite.put secret) else none) = _ at hw
      split_ifs at hw
      cases hw
    | _ => cases hw
  | vault op =>
    cases op with
    | markRestorePlanApplied id' at' =>
      obtain ⟨hpassed, rfl⟩ := hmay
      refine ⟨hpassed, ?_⟩
      rintro id appliedAt rfl
      change (if _ then some (RestoreWrite.marked id' at') else none) = _ at hw
      split_ifs at hw
      obtain ⟨rfl, -⟩ := RestoreWrite.marked.inj (Option.some.inj hw)
      rfl
    | _ => cases hw

/-- A put leaves the plans; a mark applies the plan. -/
theorem plans_after_write {w : RestoreWrite} {t t' : Tables}
    (hown : ∀ id appliedAt, w = .marked id appliedAt → id = planId) (h : w.apply t = .ok t') :
    (∃ secret, w = .put secret) ∧ t'.2 = t.2 ∨ Applied planId t'.2 := by
  cases w with
  | put secret =>
    rw [RestoreWrite.apply] at h
    cases hput : t.1.putSecret secret with
    | error e =>
      rw [hput] at h
      cases h
    | ok st =>
      rw [hput] at h
      obtain rfl := Except.ok.inj h
      exact .inl ⟨⟨secret, rfl⟩, rfl⟩
  | marked id appliedAt =>
    obtain rfl := hown id appliedAt rfl
    rw [RestoreWrite.apply] at h
    cases hmark : markApplied t.2 id appliedAt with
    | error e =>
      rw [hmark] at h
      cases h
    | ok rows =>
      rw [hmark] at h
      obtain rfl := Except.ok.inj h
      exact .inr (applied_of_mark hmark)

/-- An execution that wrote and ended marked the plan. -/
theorem marked_of_ended {t : Task NodeOp (Except NodeError NodeReply)}
    (hconf : Conforms (execution planId) t.prog ((execution planId).after t.hist) (Finished planId))
    (hwrote : writesOf t.hist ≠ []) (hended : t.Ended) :
    ∃ appliedAt, .marked planId appliedAt ∈ writesOf t.hist := by
  obtain ⟨r, hr⟩ := hended
  rw [hr] at hconf
  have hfinished : Finished planId ((execution planId).after t.hist) r := hconf
  cases r with
  | ok reply =>
    obtain ⟨appliedAt, hin⟩ := hfinished
    rw [(execution_after planId t.hist).2] at hin
    exact ⟨appliedAt, hin⟩
  | error e =>
    have hnil : ((execution planId).after t.hist).writes = [] := hfinished
    rw [(execution_after planId t.hist).2] at hnil
    exact absurd hnil hwrote

/-- Every execution of a run conforms. -/
theorem conforms_of_within (h : Within (restoreSystem W planId) carriesThrough OneInside n₀ c) :
    ∀ t ∈ c.tasks, Conforms (execution planId) t.prog ((execution planId).after t.hist)
      (Finished planId) := by
  refine h.reachable.conforms (execution planId) (fun _ => Finished planId) ?_ ?_
  · rintro p ⟨⟩
    exact execute_conforms W
  · intro β op hist s r hg hwrote
    rw [(execution_after planId hist).2] at hwrote
    exact hg hwrote

/-- **One step.** -/
theorem Settled.step (h : Settled planId n₀ c) (hone : OneInside c) (hone' : OneInside c')
    (hconf : ∀ t ∈ c.tasks, Conforms (execution planId) t.prog ((execution planId).after t.hist)
      (Finished planId)) (hstep : Step (restoreSystem W planId) carriesThrough c c') :
    Settled planId n₀ c' := by
  cases hstep with
  | start p hp => exact h.start rfl
  | restart s' hr => exact hr.elim
  | act k p op cont hist r s' hk hx hg =>
    have hmay : MayWrite planId ((execution planId).after hist) op :=
      (hconf _ (List.mem_of_getElem? hk)).1
    have hrun : ¬ (⟨p, .act op cont, hist⟩ : Task NodeOp (Except NodeError NodeReply)).Ended := by
      rintro ⟨a, ha⟩
      cases ha
    cases hw : writeEvent op r with
    | none =>
      refine h.quiet hk ?_ (fun hp => hp.append _) (tables_frame hmay hx hw) ?_
      · rw [writesOf, collect_concat, hw]
        exact List.append_nil _
      · intro i ti hi hwrote hpassed hik
        by_cases hp : Passed hist
        · exact absurd (h.alone i k ti _ hi hk hwrote hp hik) hrun
        · -- The check passes now, so the plan is not applied, and the one that wrote still runs.
          have hpasses : (passes op r).isSome = true := by
            rw [Passed, collect_concat, not_not.mp hp] at hpassed
            cases hpr : passes op r with
            | none => simp [hpr] at hpassed
            | some u => rfl
          have hnot := unapplied_of_passes hmay hx hpasses
          by_contra hrun'
          have hended : ti.Ended := by
            by_contra hends
            refine hik (hone' i k ti _ ?_ (List.getElem?_set_self
              (List.getElem?_eq_some_iff.mp hk).1) ⟨h.passed i ti hi hwrote, hends⟩
              ⟨hpassed, hrun'⟩)
            rw [List.getElem?_set_ne fun heq => hik heq.symm]
            exact hi
          obtain ⟨appliedAt, hin⟩ := marked_of_ended (hconf ti (List.mem_of_getElem? hi)) hwrote hended
          exact hnot (h.marked i ti hi appliedAt hin)
    | some w =>
      obtain ⟨hpassed, hown⟩ := write_allowed hmay hw
      have hpassed : Passed hist := (passed_iff hist).mp hpassed
      have happly := tables_write hx hw
      refine h.write hone hk hpassed hrun ?_ (hpassed.append _) happly (plans_after_write hown happly)
      rw [writesOf, collect_concat, hw]
      rfl

/-- **Runs.** -/
theorem settled_of_within (h : Within (restoreSystem W planId) carriesThrough OneInside n₀ c) :
    Settled planId n₀ c ∧ OneInside c := by
  induction h with
  | refl => exact ⟨⟨by simp, by simp, by simp, by simp, fun _ => rfl, by simp⟩, by simp [OneInside]⟩
  | tail hrun hstep ih =>
    obtain ⟨hsettled, hone⟩ := ih
    exact ⟨hsettled.step hone hstep.2 (conforms_of_within hrun) hstep.1, hstep.2⟩

end Run

/-- The secrets that an execution put. -/
def putsOf (hist : List (Event NodeOp)) : List Secret :=
  (writesOf hist).filterMap fun
    | .put secret => some secret
    | .marked _ _ => none

theorem writes_of_puts {hist : List (Event NodeOp)} (h : putsOf hist ≠ []) : writesOf hist ≠ [] := by
  intro hnil
  rw [putsOf, hnil] at h
  exact h rfl

/-- **Restores are all or nothing, and a plan is applied once.**  In every run in which an execution
that wrote does not fail any more and at most one execution is past its check: an execution that
failed wrote nothing, the tables are those at the start with the writes of one execution or none, and
at most one execution put secrets and at most one returned. -/
theorem restore_all_or_nothing (W : World) (planId : Uuid) (n₀ : Node)
    (c : Config Node NodeOp (Except NodeError NodeReply))
    (h : Within (restoreSystem W planId) carriesThrough OneInside n₀ c) :
    (∀ t ∈ c.tasks, ∀ e, t.prog = .ret (.error e) → writesOf t.hist = []) ∧
    ((∀ t ∈ c.tasks, writesOf t.hist = []) → tables c.state = tables n₀) ∧
    (∀ t ∈ c.tasks, writesOf t.hist ≠ [] →
      replayed (writesOf t.hist) (tables n₀) = .ok (tables c.state)) ∧
    (∀ (i j : ℕ) (ti tj : Task NodeOp (Except NodeError NodeReply)), c.tasks[i]? = some ti →
      c.tasks[j]? = some tj → putsOf ti.hist ≠ [] → putsOf tj.hist ≠ [] → i = j) ∧
    ∀ (i j : ℕ) (ti tj : Task NodeOp (Except NodeError NodeReply)) (ri rj : NodeReply),
      c.tasks[i]? = some ti → c.tasks[j]? = some tj → ti.prog = .ret (.ok ri) →
      tj.prog = .ret (.ok rj) → i = j := by
  obtain ⟨hsettled, -⟩ := settled_of_within h
  have hconf := conforms_of_within h
  have hreturned : ∀ {i : ℕ} {t : Task NodeOp (Except NodeError NodeReply)} {r : NodeReply},
      c.tasks[i]? = some t → t.prog = .ret (.ok r) → writesOf t.hist ≠ [] := by
    intro i t r hi hr
    have hfinished := hconf t (List.mem_of_getElem? hi)
    rw [hr] at hfinished
    obtain ⟨appliedAt, hin⟩ := hfinished
    rw [(execution_after planId t.hist).2] at hin
    exact List.ne_nil_of_mem hin
  refine ⟨?_, ?_, ?_, ?_, ?_⟩
  · intro t ht e he
    have hfinished := hconf t ht
    rw [he] at hfinished
    exact (execution_after planId t.hist).2.symm.trans hfinished
  · intro hall
    exact hsettled.clean fun i t hi => hall t (List.mem_of_getElem? hi)
  · intro t ht hne
    obtain ⟨i, hi⟩ := List.getElem?_of_mem ht
    exact hsettled.replay i t hi hne
  · intro i j ti tj hi hj hwi hwj
    exact hsettled.one i j ti tj hi hj (writes_of_puts hwi) (writes_of_puts hwj)
  · intro i j ti tj ri rj hi hj hri hrj
    exact hsettled.one i j ti tj hi hj (hreturned hi hri) (hreturned hj hrj)

/-! ### Runs of one plan -/

/-- A second handle. -/
def sampleMysql : Handle := ⟨sampleLabel, .database, ⟨"mysql", by decide⟩⟩

/-- A secret with one version. -/
def sampleBackedUp (id version : UInt8) (handle : Handle) : Secret :=
  ⟨⟨sampleUuid id⟩, ⟨sampleUuid 1⟩, handle, .database, .high, [], ⟨none, false⟩, epoch,
    [⟨⟨sampleUuid version⟩, ⟨sampleUuid id⟩, 1, sampleBlob sampleKey [97], 1, epoch, none⟩],
    ⟨sampleUuid version⟩⟩

/-- A plan that was made when neither handle was live. -/
def sampleOpenPlan : RestorePlan := { samplePlan .halt with conflicts := [] }

/-- The sample namespace with some rows. -/
def sampleSpace (rows : List SecretRow) : Store := { Store.empty with
  namespaces := [⟨⟨sampleUuid 1⟩, sampleLabel, none, 1, epoch⟩]
  secrets := rows }

/-- A backup of one secret. -/
def sampleOne : BackupPlaintext := ⟨none, [sampleBackedUp 11 12 sampleMysql]⟩

/-- The store after the put of the secret. -/
def sampleOneStored : Store := { sampleSpace [rowOf (sampleBackedUp 11 12 sampleMysql)] with
  versions := (sampleBackedUp 11 12 sampleMysql).versions }

theorem oneInside_single {c : Config Node NodeOp (Except NodeError NodeReply)}
    (h : c.tasks.length = 1) : OneInside c := by
  intro i j ti tj hi hj _ _
  have hi := (List.getElem?_eq_some_iff.mp hi).1
  have hj := (List.getElem?_eq_some_iff.mp hj).1
  omega

/-- The sample vault: a backup of one secret, a plan for it, and no live secrets. -/
def sampleBefore : Node := sampleNode sampleOne (sampleSpace []) sampleOpenPlan

/-- What is left of an execution when it has read everything. -/
def sampleRest : NodeHandler NodeReply := do
  let restored ← runInContext (applySecrets sampleOpenPlan [] (sampleOne.secrets.map jsonSecret) 0)
  let appliedAt ← portCall .now
  storageCall (.markRestorePlanApplied (sampleUuid 8) appliedAt)
  runInContext (auditCommit { op := .restore, outcome := .allow, namespaceId := ⟨sampleUuid 1⟩
                              callerProgram := agent } sampleKey)
  return .restored restored ⟨sampleUuid 1⟩

/-- An execution up to its first write, in any guarded run. -/
theorem sample_reads {G : Guard Node NodeOp}
    {C : Config Node NodeOp (Except NodeError NodeReply) → Prop} {i : ℕ}
    {ts : List (Task NodeOp (Except NodeError NodeReply))}
    (hG : ∀ hist s e, writesOf hist = [] → G hist s e)
    (hC : ∀ t, C ⟨sampleBefore, ts.set i t⟩)
    (h : Within (restoreSystem (sampleWorld sampleOne) (sampleUuid 8)) G C sampleBefore
      ⟨sampleBefore, ts⟩)
    (hi : ts[i]? = some ⟨(sampleRestore.execute (sampleWorld sampleOne)).run,
      (sampleRestore.execute (sampleWorld sampleOne)).run, []⟩) :
    ∃ hist, writesOf hist = [] ∧
      Within (restoreSystem (sampleWorld sampleOne) (sampleUuid 8)) G C sampleBefore
        ⟨sampleBefore, ts.set i ⟨(sampleRestore.execute (sampleWorld sampleOne)).run,
          sampleRest.run, hist⟩⟩ := by
  obtain ⟨hlt, hget⟩ := List.getElem?_eq_some_iff.mp hi
  have hstep : ∀ {β : Type} {op : NodeOp β} {k : β → Prog NodeOp (Except NodeError NodeReply)}
      {p : Prog NodeOp (Except NodeError NodeReply)} {hist : List (Event NodeOp)},
      Within (restoreSystem (sampleWorld sampleOne) (sampleUuid 8)) G C sampleBefore
        ⟨sampleBefore, ts.set i ⟨p, .act op k, hist⟩⟩ → writesOf hist = [] → ∀ r,
      nodeExec (sampleWorld sampleOne) op sampleBefore r sampleBefore →
      Within (restoreSystem (sampleWorld sampleOne) (sampleUuid 8)) G C sampleBefore
        ⟨sampleBefore, ts.set i ⟨p, k r, hist ++ [⟨op, r⟩]⟩⟩ := by
    intro β op k p hist h hw r hx
    have hset : (ts.set i ⟨p, .act op k, hist⟩).set i ⟨p, k r, hist ++ [⟨op, r⟩]⟩ =
        ts.set i ⟨p, k r, hist ++ [⟨op, r⟩]⟩ := List.set_set _
    have h' := h.act i (List.getElem?_set_self hlt) r sampleBefore hx (hG _ _ _ hw)
    rw [hset] at h'
    exact h' (hC _)
  have hself : ts.set i ⟨(sampleRestore.execute (sampleWorld sampleOne)).run,
      (sampleRestore.execute (sampleWorld sampleOne)).run, []⟩ = ts := by
    rw [← hget]
    exact List.set_getElem_self hlt
  rw [← hself] at h
  have h₁ := hstep h rfl true ⟨rfl, rfl⟩
  have h₂ := hstep h₁ rfl (.ok (some sampleOpenPlan)) ⟨rfl, none, rfl⟩
  have h₃ := hstep h₂ rfl epoch rfl
  have h₄ := hstep h₃ rfl (.ok none) ⟨rfl, none, rfl⟩
  have h₅ := hstep h₄ rfl (.ok sampleBefore.backups)
    ⟨rfl, none, _, ⟨List.Perm.refl _, List.pairwise_singleton _ _⟩, rfl⟩
  have h₆ := hstep h₅ rfl (.ok [0]) ⟨rfl, .inl ⟨_, rfl, rfl⟩⟩
  have h₇ := hstep h₆ rfl (some sampleKey) ⟨⟨rfl, rfl⟩, rfl⟩
  have h₈ := hstep h₇ rfl (.ok "age1".toUTF8.data.toList) (.inl ⟨rfl, rfl⟩)
  have h₉ := hstep h₈ rfl (.ok "AGE-SECRET-KEY-1".toUTF8.data.toList) (.inl ⟨rfl, rfl⟩)
  have h₁₀ := hstep h₉ rfl (.ok [0]) ⟨rfl, rfl⟩
  have h₁₁ := hstep h₁₀ rfl (.ok []) ⟨rfl, none, [], ⟨List.Perm.refl _, List.Pairwise.nil⟩, rfl⟩
  exact ⟨_, rfl, h₁₁⟩

/-- The vault after the put. -/
def samplePutBack : Node :=
  { sampleBefore with app := { sampleBefore.app with store := sampleOneStored } }

theorem sample_put : nodeExec (sampleWorld sampleOne)
    (.app (.write (.putSecret (jsonSecret (sampleBackedUp 11 12 sampleMysql))))) sampleBefore (.ok ())
    samplePutBack :=
  ⟨⟨none, rfl⟩, rfl⟩

theorem putsOf_concat {hist : List (Event NodeOp)} {secret : Secret} (hnone : writesOf hist = []) :
    putsOf (hist ++ [⟨.app (.write (.putSecret secret)), .ok ()⟩]) = [secret] := by
  rw [putsOf, writesOf, collect_concat, show collect writeEvent hist = [] from hnone]
  rfl

theorem putsOf_append {hist : List (Event NodeOp)} (h : putsOf hist ≠ []) (e : Event NodeOp) :
    putsOf (hist ++ [e]) ≠ [] := by
  rw [putsOf, writesOf, collect_concat, List.filterMap_append]
  exact List.append_ne_nil_of_left_ne_nil h _

theorem one_restore_applied : ∃ c : Config Node NodeOp (Except NodeError NodeReply),
    Within (restoreSystem (sampleWorld sampleOne) (sampleUuid 8)) carriesThrough OneInside
      sampleBefore c ∧
    ∃ t ∈ c.tasks, t.prog = .ret (.ok (.restored 1 ⟨sampleUuid 1⟩)) ∧ putsOf t.hist ≠ [] ∧
      replayed (writesOf t.hist) (tables sampleBefore) = .ok (tables c.state) := by
  let n₂ : Node := { samplePutBack with restorePlans := [⟨sampleOpenPlan, some epoch⟩] }
  obtain ⟨s, hx, -⟩ := first_commit (sampleWorld sampleOne).toCrates
    { op := .restore, outcome := .allow, namespaceId := ⟨sampleUuid 1⟩, callerProgram := agent }
    sampleKey (sampleCall 1).draw n₂.app rfl
  have h₀ : Within (restoreSystem (sampleWorld sampleOne) (sampleUuid 8)) carriesThrough OneInside
      sampleBefore ⟨sampleBefore, []⟩ := .refl
  have h₁ := h₀.start _ .execute (oneInside_single rfl)
  obtain ⟨hist, hnone, h₂⟩ := sample_reads (i := 0) (fun _ _ _ hw h => absurd hw h)
    (fun _ => oneInside_single rfl) h₁ rfl
  have h₃ := h₂.act 0 rfl (.ok ()) samplePutBack sample_put (fun h => absurd hnone h)
    (oneInside_single rfl)
  have h₄ := h₃.act 0 rfl epoch samplePutBack rfl (fun _ => trivial) (oneInside_single rfl)
  have h₅ := h₄.act 0 rfl (.ok ()) n₂ ⟨none, rfl, rfl⟩ (fun _ => rfl) (oneInside_single rfl)
  have h₆ := h₅.act 0 rfl (.ok ()) { n₂ with app := s } ⟨⟨_, _, hx⟩, rfl⟩ (fun _ => rfl)
    (oneInside_single rfl)
  have hput : putsOf (hist ++ [⟨.app (.write (.putSecret
      (jsonSecret (sampleBackedUp 11 12 sampleMysql)))), .ok ()⟩]) ≠ [] :=
    (putsOf_concat hnone).symm ▸ List.cons_ne_nil _ _
  have hputs : ∀ e₁ e₂ e₃, putsOf (_ ++ [e₁] ++ [e₂] ++ [e₃]) ≠ [] := fun e₁ e₂ e₃ =>
    putsOf_append (putsOf_append (putsOf_append hput e₁) e₂) e₃
  refine ⟨_, h₆, _, List.mem_cons_self, rfl, hputs _ _ _, ?_⟩
  exact (restore_all_or_nothing _ _ _ _ h₆).2.2.1 _ List.mem_cons_self (writes_of_puts (hputs _ _ _))

/-- An execution whose mark meets a storage failure ends with that error, and the secret that it put
is there.  Two executions that both pass the check both put it. -/
theorem restore_partial_and_repeated :
    (∃ (c : Config Node NodeOp (Except NodeError NodeReply))
      (t : Task NodeOp (Except NodeError NodeReply)) (e : NodeError),
      Reachable (restoreSystem (sampleWorld sampleOne) (sampleUuid 8)) unguarded sampleBefore c ∧
      c.tasks = [t] ∧ t.prog = .ret (.error e) ∧
      c.state.app.store.secrets ≠ sampleBefore.app.store.secrets) ∧
    ∃ (c : Config Node NodeOp (Except NodeError NodeReply))
      (t₁ t₂ : Task NodeOp (Except NodeError NodeReply)),
      Reachable (restoreSystem (sampleWorld sampleOne) (sampleUuid 8)) unguarded sampleBefore c ∧
      c.tasks = [t₁, t₂] ∧ putsOf t₁.hist ≠ [] ∧ putsOf t₂.hist ≠ [] := by
  have h₀ : Within (restoreSystem (sampleWorld sampleOne) (sampleUuid 8)) unguarded
      (fun _ => True) sampleBefore ⟨sampleBefore, []⟩ := .refl
  have h₁ := h₀.start _ .execute trivial
  constructor
  · obtain ⟨hist, -, h₂⟩ := sample_reads (i := 0) (fun _ _ _ _ => trivial) (fun _ => trivial) h₁ rfl
    have h₃ := h₂.act 0 rfl (.ok ()) samplePutBack sample_put trivial trivial
    have h₄ := h₃.act 0 rfl epoch samplePutBack rfl trivial trivial
    have h₅ := h₄.act 0 rfl (.error (.transient "busy")) samplePutBack
      ⟨some (.transient "busy"), rfl, rfl⟩ trivial trivial
    exact ⟨_, _, _, h₅.reachable, rfl, rfl, List.cons_ne_nil _ _⟩
  · have h₂ := h₁.start _ .execute trivial
    obtain ⟨hist₁, hnone₁, h₃⟩ := sample_reads (i := 0) (fun _ _ _ _ => trivial) (fun _ => trivial)
      h₂ rfl
    obtain ⟨hist₂, hnone₂, h₄⟩ := sample_reads (i := 1) (fun _ _ _ _ => trivial) (fun _ => trivial)
      h₃ rfl
    have h₅ := h₄.act 0 rfl (.ok ()) samplePutBack sample_put trivial trivial
    have h₆ := h₅.act 1 rfl (.ok ()) samplePutBack ⟨⟨none, rfl⟩, rfl⟩ trivial trivial
    refine ⟨_, _, _, h₆.reachable, rfl, ?_, ?_⟩
    · exact (putsOf_concat hnone₁).symm ▸ List.cons_ne_nil _ _
    · exact (putsOf_concat hnone₂).symm ▸ List.cons_ne_nil _ _

end MerkleVault.App.RestoreOnce
