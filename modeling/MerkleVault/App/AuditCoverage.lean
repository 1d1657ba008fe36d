import MerkleVault.App.SecretCommands
import MerkleVault.App.IdentitySections

/-! # Audit Coverage of Mutations

Put, rotate, rollback, delete and bind persist their change before they read the audit key and commit
the entry of the change.  A seal in between, or a storage failure on the entry, ends the command with
an error and leaves the change in storage without its entry.

* `mutations_recorded_of_reachable`: without such a failure every change of an ended command has its
  entry in the persisted chain;
* `unrecorded_binding`: with it, it has not. -/

namespace MerkleVault.App.AuditCoverage

open MerkleVault.Types MerkleVault.Lib.Program MerkleVault.Identity MerkleVault.Audit.Entry
open MerkleVault.Audit.Writer MerkleVault.Audit.Integrity MerkleVault.Secrets.Aggregate
open MerkleVault.Sqlite.Tables MerkleVault.App.Context MerkleVault.App.Lifecycle
open MerkleVault.App.SecretCommands MerkleVault.App.AuditDurability MerkleVault.App.IdentitySections

/-! ### What a command changed and recorded -/

/-- Writes of a secret, a version, a deletion or a binding. -/
def mutates : Write → Bool
  | .putNamespacePolicy _ => false
  | _ => true

/-- The change that an action made. -/
def mutationOf {β : Type} : Op β → β → Option Write
  | .write w, r => if r.isOk && mutates w then some w else none
  | _, _ => none

/-- The entry that an action committed. -/
def recordOf {β : Type} : Op β → β → Option AppendParams
  | .auditCommit params _, r => if r.isOk then some params else none
  | _, _ => none

/-- The writes of secrets and namespaces that succeeded. -/
def mutations (hist : List (Event Op)) : List Write :=
  hist.filterMap fun e => mutationOf e.op e.res

/-- The entries that were committed. -/
def recorded (hist : List (Event Op)) : List AppendParams :=
  hist.filterMap fun e => recordOf e.op e.res

theorem mutations_concat (hist : List (Event Op)) (e : Event Op) :
    mutations (hist ++ [e]) = mutations hist ++ (mutationOf e.op e.res).toList :=
  collect_concat mutationOf hist e

theorem recorded_concat (hist : List (Event Op)) (e : Event Op) :
    recorded (hist ++ [e]) = recorded hist ++ (recordOf e.op e.res).toList :=
  collect_concat recordOf hist e

/-- The entry is the one that the writer makes for the parameters. -/
structure Records (e : AuditEntry) (p : AppendParams) : Prop where
  op : e.op = p.op
  outcome : e.outcome = p.outcome
  denialReason : e.denialReason = p.denialReason
  namespaceId : e.namespaceId = p.namespaceId
  callerProgram : e.callerProgram = p.callerProgram
  handle : e.handle = p.handle
  sensitivity : e.sensitivity = p.sensitivity

/-! ### The commands -/

/-- The commands that write secrets and namespaces. -/
inductive MutationCommand
  | put (cmd : PutSecretCommand)
  | rotate (cmd : RotateSecretCommand)
  | rollback (cmd : RollbackSecretCommand)
  | delete (cmd : DeleteSecretCommand)
  | bind (cmd : BindNamespaceCommand)

namespace MutationCommand

/-- Any of them. -/
def execute (E : Env) : MutationCommand → Handler Reply
  | put cmd => cmd.execute E
  | rotate cmd => cmd.execute E
  | rollback cmd => cmd.execute
  | delete cmd => cmd.execute
  | bind cmd => cmd.execute

/-- The `Allow` entry that the command records for a change. -/
def AllowEntry : MutationCommand → Write → AppendParams → Prop
  | put cmd, .putSecret _, p => p = cmd.allow
  | rotate cmd, .putSecret s, p => p = rotated cmd.namespaceId cmd.handle s.sensitivity
  | rollback cmd, .putSecret s, p => p = rotated cmd.namespaceId cmd.handle s.sensitivity
  | delete cmd, .deleteSecret _, p => ∃ sensitivity, p = cmd.allow sensitivity
  | bind _, .putNamespace ns, p => p = bound ns.id
  | _, _, _ => False

end MutationCommand

/-! ### The monitor -/

/-- What a command wrote and what it recorded. -/
structure Ledger where
  wrote : List Write
  recorded : List AppendParams

/-- After its change a command finds the audit key, and storage takes what it writes. -/
def CarriesOn {β : Type} : Op β → β → Prop
  | .readHmacKey, r => r.isSome = true
  | .auditCommit _ _, r => r.isOk = true
  | .write _, r => r.isOk = true
  | _, _ => True

/-- The rules of a command: after its write it goes on to the entry. -/
def ledger : Monitor Op Ledger where
  init := ⟨[], []⟩
  allowed _ _ := True
  expects m op r := m.wrote ≠ [] → CarriesOn op r
  next m op r := ⟨m.wrote ++ (mutationOf op r).toList, m.recorded ++ (recordOf op r).toList⟩

theorem ledger_after (hist : List (Event Op)) :
    ledger.after hist = ⟨mutations hist, recorded hist⟩ := by
  induction hist using List.reverseRecOn with
  | nil => rfl
  | append_singleton hist e ih =>
    rw [Monitor.after_concat, ih, mutations_concat, recorded_concat]
    rfl

/-- Every change of the command has its entry. -/
def Covered (cmd : MutationCommand) (m : Ledger) : Prop :=
  ∀ w ∈ m.wrote, ∃ p ∈ m.recorded, cmd.AllowEntry w p

theorem covered_of_wrote_nil {cmd : MutationCommand} {m : Ledger} (h : m.wrote = []) :
    Covered cmd m := by
  intro w hw
  rw [h] at hw
  cases hw

theorem ledger_idle {β : Type} {op : Op β}
    (h : ∀ r, mutationOf op r = none ∧ recordOf op r = none) : Idle ledger.rules op := by
  refine fun m => ⟨trivial, ?_⟩
  rintro r m' ⟨-, rfl⟩
  simp [ledger, h r]

variable {E : Env}

/-! ### Before the change -/

/-- The actions that a command takes before its change. -/
def asks {β : Type} : Op β → Prop
  | .identity .isUnsealed => True
  | .query _ => True
  | .newUuid => True
  | .port _ => True
  | _ => False

/-- Key, entry and return: what every command ends with. -/
def finish (p : AppendParams) (reply : Reply) : Handler Reply := do
  let hmacKey ← requireHmacKey
  auditCommit p hmacKey
  return reply

section Parts

variable {M : Type*} {R : Rules Op M} {m : M} {Q : M → Except AppError Reply → Prop}

theorem still_loadSecret (h : ∀ {β : Type} {op : Op β}, asks op → Idle R op) (handle : Handle) :
    Still R (loadSecret handle) := by
  refine still_bind (still_bind (still_attempt (h trivial)) fun row => ?_) fun secret =>
    still_orThrow _ _
  cases row with
  | none => exact still_pure _
  | some row => exact still_bind (still_attempt (h trivial)) fun _ => still_pure _

/-- **A put** is its write and its entry, after parts that change nothing. -/
theorem put_wp (h : ∀ {β : Type} {op : Op β}, asks op → Idle R op) (cmd : PutSecretCommand)
    (herr : ∀ e, Q m (.error e))
    (hfinish : ∀ secret reply, Wp R (write (.putSecret secret) >>= fun _ =>
      finish cmd.allow reply).run m Q) : Wp R (cmd.execute E).run m Q := by
  unfold PutSecretCommand.execute
  refine wp_still_bind (still_requireUnsealed (h trivial)) (fun _ => ?_) herr
  refine wp_still_bind (still_decodePayload _ _) (fun decoded => ?_) herr
  refine wp_still_bind (still_encryptBlob (h trivial) _ _ _) (fun blob => ?_) herr
  refine wp_still_bind (still_call (h trivial)) (fun placeholder => ?_) herr
  refine wp_still_bind (still_call (h trivial)) (fun versionId => ?_) herr
  refine wp_still_bind (still_call (h trivial)) (fun versionTime => ?_) herr
  refine wp_still_bind (still_call (h trivial)) (fun secretId => ?_) herr
  refine wp_still_bind (still_call (h trivial)) (fun now => ?_) herr
  refine wp_still_bind (still_ofExcept _ _) (fun secret => ?_) herr
  exact hfinish secret _

theorem rotate_wp (h : ∀ {β : Type} {op : Op β}, asks op → Idle R op) (cmd : RotateSecretCommand)
    (herr : ∀ e, Q m (.error e))
    (hfinish : ∀ secret reply, Wp R (write (.putSecret secret) >>= fun _ =>
      finish (rotated cmd.namespaceId cmd.handle secret.sensitivity) reply).run m Q) :
    Wp R (cmd.execute E).run m Q := by
  unfold RotateSecretCommand.execute
  refine wp_still_bind (still_requireUnsealed (h trivial)) (fun _ => ?_) herr
  refine wp_still_bind (still_loadSecret h _) (fun secret => ?_) herr
  refine wp_still_bind (still_decodePayload _ _) (fun decoded => ?_) herr
  refine wp_still_bind (still_encryptBlob (h trivial) _ _ _) (fun blob => ?_) herr
  refine wp_still_bind (still_call (h trivial)) (fun versionId => ?_) herr
  refine wp_still_bind (still_call (h trivial)) (fun versionTime => ?_) herr
  refine wp_still_bind (still_call (h trivial)) (fun now => ?_) herr
  refine wp_still_bind (still_ofExcept _ _) (fun secret => ?_) herr
  exact hfinish secret _

theorem rollback_wp (h : ∀ {β : Type} {op : Op β}, asks op → Idle R op)
    (cmd : RollbackSecretCommand) (herr : ∀ e, Q m (.error e))
    (hdeny : ∀ sensitivity reason e,
      Wp R (deny .rotate cmd.namespaceId cmd.handle sensitivity reason e : Handler Reply).run m Q)
    (hfinish : ∀ secret reply, Wp R (write (.putSecret secret) >>= fun _ =>
      finish (rotated cmd.namespaceId cmd.handle secret.sensitivity) reply).run m Q) :
    Wp R cmd.execute.run m Q := by
  unfold RollbackSecretCommand.execute
  refine wp_still_bind (still_requireUnsealed (h trivial)) (fun _ => ?_) herr
  refine wp_still_bind (still_loadSecret h _) (fun secret => ?_) herr
  split
  · exact hdeny _ _ _
  · refine wp_still_bind (still_call (h trivial)) (fun versionId => ?_) herr
    refine wp_still_bind (still_call (h trivial)) (fun now => ?_) herr
    refine wp_still_bind (still_ofExcept _ _) (fun secret => ?_) herr
    exact hfinish secret _

theorem delete_wp (h : ∀ {β : Type} {op : Op β}, asks op → Idle R op)
    (cmd : DeleteSecretCommand) (herr : ∀ e, Q m (.error e))
    (hdeny : ∀ sensitivity reason e,
      Wp R (deny .delete cmd.namespaceId cmd.handle sensitivity reason e : Handler Reply).run m Q)
    (hfinish : ∀ id sensitivity reply, Wp R (write (.deleteSecret id) >>= fun _ =>
      finish (cmd.allow sensitivity) reply).run m Q) : Wp R cmd.execute.run m Q := by
  unfold DeleteSecretCommand.execute
  refine wp_still_bind (still_requireUnsealed (h trivial)) (fun _ => ?_) herr
  refine wp_still_bind (still_loadSecret h _) (fun secret => ?_) herr
  split
  · exact hdeny _ _ _
  · exact hfinish _ _ _

end Parts

theorem ledger_asks {β : Type} {op : Op β} (h : asks op) : Idle ledger.rules op := by
  refine ledger_idle fun r => ?_
  cases op with
  | write w => exact h.elim
  | auditCommit params key => exact h.elim
  | _ => exact ⟨rfl, rfl⟩

theorem still_query {β : Type} (q : Query β) : Still ledger.rules (query q) :=
  still_attempt (ledger_asks trivial)

/-! ### The change and its entry -/

/-- Once the change is made, a command that carries on records it. -/
theorem finish_covered {cmd : MutationCommand} {w : Write} {p : AppendParams} (reply : Reply)
    (hp : cmd.AllowEntry w p) :
    Conforms ledger (finish p reply).run ⟨[w], []⟩ fun m _ => Covered cmd m := by
  simp only [finish, requireHmacKey, auditCommit, wp_except_bind, wp_call, wp_orThrow, wp_attempt,
    wp_except_pure]
  refine ⟨trivial, ?_⟩
  rintro key m ⟨hkey, rfl⟩
  obtain ⟨k, rfl⟩ := Option.isSome_iff_exists.mp (hkey (by simp))
  refine ⟨?_, fun h => absurd h (by simp)⟩
  rintro _ -
  refine ⟨trivial, ?_⟩
  rintro r m ⟨hr, rfl⟩
  have hok : r.isOk = true := hr (by simp [ledger, mutationOf])
  obtain ⟨u, rfl⟩ : ∃ u, r = .ok u := by
    cases r with
    | ok u => exact ⟨u, rfl⟩
    | error e => cases hok
  intro w' hw'
  obtain rfl : w' = w := by simpa [ledger, mutationOf] using hw'
  exact ⟨p, by simp [ledger, recordOf, Except.isOk, Except.toBool], hp⟩

/-- **The change and its entry**: nothing is left without its entry when the write fails, and a
command that carries on records it when the write goes through. -/
theorem write_finish_covered {cmd : MutationCommand} {w : Write} (hw : mutates w = true)
    {f : Unit → Handler Reply}
    (hf : Conforms ledger (f ()).run ⟨[w], []⟩ fun m _ => Covered cmd m) :
    Conforms ledger (write w >>= f).run ledger.init fun m _ => Covered cmd m := by
  simp only [write, wp_except_bind, wp_attempt]
  refine ⟨trivial, ?_⟩
  rintro r m ⟨-, rfl⟩
  cases r with
  | ok u =>
    have hm : ledger.next ledger.init (.write w) (.ok u) = ⟨[w], []⟩ := by
      simp [ledger, mutationOf, recordOf, hw, Except.isOk, Except.toBool]
    rw [hm]
    exact hf
  | error e =>
    refine covered_of_wrote_nil ?_
    simp [ledger, mutationOf, Except.isOk, Except.toBool]

theorem deny_covered {cmd : MutationCommand} (op : AuditOp) (ns : NamespaceId) (handle : Handle)
    (sensitivity : Sensitivity) (reason : String) (e : AppError) :
    Conforms ledger (deny op ns handle sensitivity reason e : Handler Reply).run ledger.init
      fun m _ => Covered cmd m := by
  simp only [deny, requireHmacKey, auditCommit, wp_except_bind, wp_call, wp_orThrow, wp_attempt,
    wp_throw]
  refine ⟨trivial, ?_⟩
  rintro key m ⟨-, rfl⟩
  refine ⟨?_, fun _ => covered_of_wrote_nil rfl⟩
  rintro k -
  refine ⟨trivial, ?_⟩
  rintro r m ⟨-, rfl⟩
  cases r <;> exact covered_of_wrote_nil rfl

/-- A policy write after the change: it goes through in a command that carries on. -/
theorem policy_write_covered {cmd : MutationCommand} {policy : NamespacePolicy} {m : Ledger}
    (hm : m.wrote ≠ []) {f : Unit → Handler Reply}
    (hf : Conforms ledger (f ()).run m fun m _ => Covered cmd m) :
    Conforms ledger (write (.putNamespacePolicy policy) >>= f).run m fun m _ => Covered cmd m := by
  simp only [write, wp_except_bind, wp_attempt]
  refine ⟨trivial, ?_⟩
  rintro r m' ⟨hr, rfl⟩
  cases r with
  | ok u =>
    have hsame : ledger.next m (.write (.putNamespacePolicy policy)) (.ok u) = m := by
      simp [ledger, mutationOf, recordOf, mutates]
    rw [hsame]
    exact hf
  | error e => cases hr hm

theorem put_covered (cmd : PutSecretCommand) :
    Conforms ledger (cmd.execute E).run ledger.init fun m _ => Covered (.put cmd) m :=
  put_wp ledger_asks cmd (fun _ => covered_of_wrote_nil rfl) fun _ reply =>
    write_finish_covered rfl (finish_covered reply rfl)

theorem rotate_covered (cmd : RotateSecretCommand) :
    Conforms ledger (cmd.execute E).run ledger.init fun m _ => Covered (.rotate cmd) m :=
  rotate_wp ledger_asks cmd (fun _ => covered_of_wrote_nil rfl) fun _ reply =>
    write_finish_covered rfl (finish_covered reply rfl)

theorem rollback_covered (cmd : RollbackSecretCommand) :
    Conforms ledger cmd.execute.run ledger.init fun m _ => Covered (.rollback cmd) m :=
  rollback_wp ledger_asks cmd (fun _ => covered_of_wrote_nil rfl) (fun _ _ _ => deny_covered _ _ _ _ _ _)
    fun _ reply => write_finish_covered rfl (finish_covered reply rfl)

theorem delete_covered (cmd : DeleteSecretCommand) :
    Conforms ledger cmd.execute.run ledger.init fun m _ => Covered (.delete cmd) m :=
  delete_wp ledger_asks cmd (fun _ => covered_of_wrote_nil rfl) (fun _ _ _ => deny_covered _ _ _ _ _ _)
    fun _ sensitivity reply => write_finish_covered rfl (finish_covered reply ⟨sensitivity, rfl⟩)

theorem still_repairPolicy (id : NamespaceId) : Still ledger.rules (repairPolicy id) := by
  refine still_bind (still_query _) fun policy => ?_
  cases policy with
  | some _ => exact still_pure ()
  | none =>
    refine still_attempt (ledger_idle fun r => ⟨?_, rfl⟩)
    simp [mutationOf, mutates]

theorem bind_covered (cmd : BindNamespaceCommand) :
    Conforms ledger cmd.execute.run ledger.init fun m _ => Covered (.bind cmd) m := by
  have herr : ∀ e : AppError, Covered (.bind cmd) ledger.init := fun _ => covered_of_wrote_nil rfl
  unfold BindNamespaceCommand.execute
  refine wp_still_bind (still_requireUnsealed (ledger_asks trivial)) (fun _ => ?_) herr
  split
  · exact covered_of_wrote_nil rfl
  · refine wp_still_bind (still_query _) (fun existing => ?_) herr
    cases existing with
    | some ns =>
      exact wp_still_bind (still_repairPolicy _) (fun _ => covered_of_wrote_nil rfl) herr
    | none =>
      refine wp_still_bind (still_bind (still_call (ledger_asks trivial)) fun _ => still_pure _)
        (fun id => ?_) herr
      refine wp_still_bind (still_call (ledger_asks trivial)) (fun now => ?_) herr
      refine write_finish_covered rfl ?_
      -- The policy write stands between the namespace and its entry.
      exact policy_write_covered (by simp) (finish_covered _ rfl)

theorem MutationCommand.covered (cmd : MutationCommand) :
    Conforms ledger (cmd.execute E).run ledger.init fun m _ => Covered cmd m := by
  cases cmd with
  | put cmd => exact put_covered cmd
  | rotate cmd => exact rotate_covered cmd
  | rollback cmd => exact rollback_covered cmd
  | delete cmd => exact delete_covered cmd
  | bind cmd => exact bind_covered cmd

/-! ### Runs -/

/-- A commit adds the entry of its parameters, or nothing. -/
theorem auditCommitSection_entries {K : External.Crates} {params : AppendParams} {key : Key}
    {draw : Draw} {fault : Option StorageError} {s s' : AppState} {r : Except AppError Unit}
    (h : auditCommitSection K params key draw fault s = (r, s')) :
    (∃ e, Records e params ∧ s'.store.auditEntries = s.store.auditEntries ++ [e]) ∨
      (r.isOk = false ∧ s'.store.auditEntries = s.store.auditEntries) := by
  unfold auditCommitSection at h
  split at h
  · obtain ⟨rfl, rfl⟩ := Prod.mk.inj h
    exact .inr ⟨rfl, rfl⟩
  · next log entry pinned happ =>
    split at h
    · obtain ⟨rfl, rfl⟩ := Prod.mk.inj h
      exact .inr ⟨rfl, rfl⟩
    · next store hstore =>
      obtain ⟨rfl, rfl⟩ := Prod.mk.inj h
      obtain ⟨k, -, ha⟩ := append_ok happ
      have hpart : ∀ {γ : Type} (f : AuditEntry → γ),
          f { entry with currentHash := genesis, hmac := none } =
            f (partialEntry s.auditLog params draw) := fun f => congrArg f ha.part_eq
      refine .inl ⟨{ entry with seq := saturateI64 entry.seq }, ?_, ?_⟩
      · exact ⟨hpart (·.op), hpart (·.outcome), hpart (·.denialReason), hpart (·.namespaceId),
          hpart (·.callerProgram), hpart (·.handle), hpart (·.sensitivity)⟩
      · have hc := (faulty_ok hstore).2
        unfold Store.commitAuditEntry at hc
        simp only at hc
        split_ifs at hc
        rw [← Except.ok.inj hc]

/-- The persisted entries only grow. -/
theorem auditEntries_mono {K : External.Crates} {β : Type} {op : Op β} {s s' : AppState} {r : β}
    (hx : exec K op s r s') : s.store.auditEntries ⊆ s'.store.auditEntries := by
  cases op with
  | identity o =>
    obtain ⟨-, rfl⟩ := Prod.mk.inj hx
    exact List.Subset.refl _
  | readHmacKey =>
    obtain ⟨-, rfl⟩ := hx
    exact List.Subset.refl _
  | writeHmacKey key =>
    obtain rfl : s' = _ := hx
    exact List.Subset.refl _
  | auditCommit params key =>
    obtain ⟨draw, fault, hx⟩ := hx
    rcases auditCommitSection_entries hx with ⟨e, -, he⟩ | ⟨-, he⟩
    · rw [he]
      exact List.subset_append_left _ _
    · rw [he]
      exact List.Subset.refl _
  | installHead p =>
    obtain rfl : s' = _ := hx
    exact List.Subset.refl _
  | query q =>
    obtain ⟨rfl, -⟩ := hx
    exact List.Subset.refl _
  | write w =>
    obtain ⟨fault, hx⟩ := hx
    rcases writeSection_eq hx with ⟨-, store, hw, rfl⟩ | ⟨-, rfl⟩
    · rw [show ({ s with store := store } : AppState).store.auditEntries = _ from
        (Write.apply_audit hw).1]
      exact List.Subset.refl _
    · exact List.Subset.refl _
  | newUuid =>
    obtain ⟨-, rfl⟩ := hx
    exact List.Subset.refl _
  | registerUseToken key token =>
    obtain rfl : s' = _ := hx
    exact List.Subset.refl _
  | consumeUseToken key handle =>
    obtain ⟨now, hx⟩ := hx
    rw [consumeUseTokenSection_eq hx]
    exact List.Subset.refl _
  | port p =>
    obtain rfl : s' = _ := hx
    exact List.Subset.refl _

/-- An entry that an action committed is in the persisted chain. -/
theorem record_persisted {K : External.Crates} {β : Type} {op : Op β} {s s' : AppState} {r : β}
    (hx : exec K op s r s') {p : AppendParams} (hp : recordOf op r = some p) :
    ∃ e ∈ s'.store.auditEntries, Records e p := by
  cases op with
  | auditCommit params key =>
    obtain ⟨draw, fault, hx⟩ := hx
    simp only [recordOf] at hp
    split_ifs at hp with hok
    obtain rfl := Option.some.inj hp
    rcases auditCommitSection_entries hx with ⟨e, hrec, he⟩ | ⟨hno, -⟩
    · exact ⟨e, by rw [he]; simp, hrec⟩
    · rw [hok] at hno
      cases hno
  | _ => simp [recordOf] at hp

/-- Everything that the histories recorded is in the persisted chain. -/
def Persisted (s : AppState) (hists : List (List (Event Op))) : Prop :=
  ∀ hist ∈ hists, ∀ p ∈ recorded hist, ∃ e ∈ s.store.auditEntries, Records e p

theorem Persisted.step {K : External.Crates} {β : Type} {op : Op β} {s s' : AppState} {r : β}
    {hists : List (List (Event Op))} {hist : List (Event Op)} {i : ℕ} (h : Persisted s hists)
    (hi : hists[i]? = some hist) (hx : exec K op s r s') :
    Persisted s' (hists.set i (hist ++ [⟨op, r⟩])) := by
  have hmono : ∀ p, (∃ e ∈ s.store.auditEntries, Records e p) →
      ∃ e ∈ s'.store.auditEntries, Records e p := by
    rintro p ⟨e, he, hrec⟩
    exact ⟨e, auditEntries_mono hx he, hrec⟩
  intro hist' hmem p hp
  rcases List.mem_or_eq_of_mem_set hmem with hmem | rfl
  · exact hmono p (h hist' hmem p hp)
  · rw [recorded_concat] at hp
    rcases List.mem_append.mp hp with hp | hp
    · exact hmono p (h hist (List.mem_of_getElem? hi) p hp)
    · exact record_persisted hx (Option.mem_toList.mp hp)

/-- **What a handler recorded is in the persisted chain**, whatever runs beside it. -/
theorem recorded_persisted {K : External.Crates} {starts : Prog Op (Except AppError Reply) → Prop}
    {G : Guard AppState Op} {s₀ : AppState} {c : Config AppState Op (Except AppError Reply)}
    (h : Reachable (agentSystem K starts) G s₀ c) {t : Task Op (Except AppError Reply)}
    (ht : t ∈ c.tasks) {p : AppendParams} (hp : p ∈ recorded t.hist) :
    ∃ e ∈ c.state.store.auditEntries, Records e p := by
  obtain ⟨hI, -⟩ := h.rule history (fun _ _ _ => True) Persisted
    (by simp [Persisted])
    (fun _ _ => wp_of_forall (fun _ _ => trivial) fun _ _ => trivial)
    (by
      intro s hists hI hist hmem p hp
      rcases List.mem_append.mp hmem with hmem | hmem
      · exact hI hist hmem p hp
      · rw [List.mem_singleton.mp hmem] at hp
        cases hp)
    (by
      intro β op hist s s' r hists i hI hi _ hx _
      exact ⟨trivial, hI.step hi hx⟩)
    (by
      rintro s s' hists - -
      simp [Persisted])
  exact hI t.hist (List.mem_map.mpr ⟨t, ht, history_after _⟩) p hp

/-- The commands, and the seals and unseals that run between them. -/
inductive CommandClient (E : Env) : Prog Op (Except AppError Reply) → Prop
  | mutate (cmd : MutationCommand) : CommandClient E (cmd.execute E).run
  | unseal (cmd : UnsealVaultCommand) : CommandClient E (cmd.execute E).run
  | seal : CommandClient E sealVaultExecute.run

/-- A command that has made its change then finds the audit key and meets no storage failure. -/
def carriesOn : Guard AppState Op := fun hist _ e =>
  mutations hist ≠ [] → CarriesOn e.op e.res

/-- **Audit coverage of mutations.**  In every run of commands, seals and unseals where a command
that has made its change carries on, each change of an ended command has its `Allow` entry, and the
persisted chain holds it. -/
theorem mutations_recorded_of_reachable (E : Env) (s₀ : AppState)
    (c : Config AppState Op (Except AppError Reply))
    (h : Reachable (agentSystem E.toCrates (CommandClient E)) carriesOn s₀ c)
    (t : Task Op (Except AppError Reply)) (ht : t ∈ c.tasks) (cmd : MutationCommand)
    (hcmd : t.source = (cmd.execute E).run) (r : Except AppError Reply) (hend : t.prog = .ret r) :
    ∀ w ∈ mutations t.hist, ∃ p ∈ recorded t.hist, cmd.AllowEntry w p ∧
      ∃ e ∈ c.state.store.auditEntries, Records e p := by
  obtain ⟨-, hconf⟩ := h.rule ledger
    (fun p m _ => p = (cmd.execute E).run → Covered cmd m) (fun _ _ => True) trivial
    (by
      intro p _
      by_cases hp : p = (cmd.execute E).run
      · subst hp
        exact cmd.covered.mono fun m a hm _ => hm
      · exact wp_of_forall (fun _ _ => trivial) fun m a he => absurd he hp)
    (fun _ => trivial)
    (by
      intro β op hist s s' r ms i _ _ _ _ hg
      refine ⟨?_, trivial⟩
      rw [ledger_after]
      exact hg)
    (fun _ _ => trivial)
  have hcov := hconf t ht
  rw [hend, ledger_after] at hcov
  intro w hw
  obtain ⟨p, hp, hallow⟩ := hcov hcmd w hw
  exact ⟨p, hp, hallow, recorded_persisted h ht hp⟩

/-! ### Runs of bind -/

/-- A bind of the sample label. -/
def sampleBind : BindNamespaceCommand := ⟨sampleLabel, none, 1⟩

/-- The namespace that it writes. -/
def sampleNamespace : Namespace :=
  ⟨⟨Vector.replicate 16 1⟩, sampleBind.label, sampleBind.cwdHash, sampleBind.dekVersion, epoch⟩

/-- The vault after the namespace and its policy are stored. -/
def sampleBound : AppState := { sampleState with
  issued := [Vector.replicate 16 1]
  store := { Store.empty with
    namespaces := [sampleNamespace]
    policies := [.balanced sampleNamespace.id] } }

/-- A bind up to its read of the audit key, in any guarded system. -/
theorem bind_until_key {G : Guard AppState Op}
    (hG : ∀ hist s e, CarriesOn e.op e.res → G hist s e) :
    ∃ k hist, Reachable (agentSystem sampleEnv.toCrates (CommandClient sampleEnv)) G sampleState
      ⟨sampleBound, [⟨((MutationCommand.bind sampleBind).execute sampleEnv).run,
        .act .readHmacKey k, hist⟩]⟩ ∧
      mutations hist = [.putNamespace sampleNamespace] ∧
      ∀ key, ∃ k', k (some key) = .act (.auditCommit (bound sampleNamespace.id) key) k' ∧
        ∀ r, ∃ reply, k' r = .ret reply := by
  let u : Uuid := Vector.replicate 16 1
  let s₁ : AppState := { sampleState with issued := [u] }
  let s₂ : AppState := { s₁ with store := { Store.empty with namespaces := [sampleNamespace] } }
  have h₀ := Reachable.here (agentSystem sampleEnv.toCrates (CommandClient sampleEnv)) G sampleState
  have h₁ := h₀.start _ (.mutate (.bind sampleBind))
  have h₂ := h₁.act 0 rfl true sampleState rfl (hG _ _ _ trivial)
  have h₃ := h₂.act 0 rfl (.ok none) sampleState ⟨rfl, none, rfl⟩ (hG _ _ _ trivial)
  have h₄ := h₃.act 0 rfl u s₁ ⟨List.not_mem_nil, rfl⟩ (hG _ _ _ trivial)
  have h₅ := h₄.act 0 rfl epoch s₁ rfl (hG _ _ _ trivial)
  have h₆ := h₅.act 0 rfl (.ok ()) s₂ ⟨none, rfl⟩ (hG _ _ _ rfl)
  have h₇ := h₆.act 0 rfl (.ok ()) sampleBound ⟨none, rfl⟩ (hG _ _ _ rfl)
  refine ⟨_, _, h₇, rfl, fun key => ⟨_, rfl, fun r => ?_⟩⟩
  cases r with
  | ok u => exact ⟨_, rfl⟩
  | error e => exact ⟨_, rfl⟩

theorem bind_recorded : ∃ (c : Config AppState Op (Except AppError Reply))
    (t : Task Op (Except AppError Reply)) (r : Except AppError Reply),
    Reachable (agentSystem sampleEnv.toCrates (CommandClient sampleEnv)) carriesOn sampleState c ∧
    t ∈ c.tasks ∧ t.source = ((MutationCommand.bind sampleBind).execute sampleEnv).run ∧
    t.prog = .ret r ∧ mutations t.hist = [.putNamespace sampleNamespace] ∧
    ∀ w ∈ mutations t.hist, ∃ p ∈ recorded t.hist, (MutationCommand.bind sampleBind).AllowEntry w p ∧
      ∃ e ∈ c.state.store.auditEntries, Records e p := by
  obtain ⟨k, hist, h, hmut, hk⟩ := bind_until_key (G := carriesOn) fun _ _ _ h _ => h
  obtain ⟨k', hact, hret⟩ := hk sampleKey
  obtain ⟨reply, hreply⟩ := hret (.ok ())
  obtain ⟨s', hx, -⟩ := first_commit sampleCrates (bound sampleNamespace.id) sampleKey
    (sampleCall 1).draw sampleBound rfl
  have h₁ := h.act 0 rfl (some sampleKey) sampleBound ⟨rfl, rfl⟩ fun _ => rfl
  rw [hact] at h₁
  have h₂ := h₁.act 0 rfl (.ok ()) s' ⟨_, _, hx⟩ fun _ => rfl
  refine ⟨_, _, _, h₂, List.mem_cons_self, rfl, hreply, ?_, ?_⟩
  · rw [mutations_concat, mutations_concat, hmut]
    rfl
  · exact mutations_recorded_of_reachable sampleEnv sampleState _ h₂ _ List.mem_cons_self
      (.bind sampleBind) rfl _ hreply

/-- A bind whose entry meets a storage failure ends with that error: the namespace is stored and
nothing is recorded. -/
theorem unrecorded_binding : ∃ (c : Config AppState Op (Except AppError Reply))
    (t : Task Op (Except AppError Reply)) (r : Except AppError Reply) (w : Write),
    Reachable (agentSystem sampleEnv.toCrates (CommandClient sampleEnv)) unguarded sampleState c ∧
    t ∈ c.tasks ∧ t.source = ((MutationCommand.bind sampleBind).execute sampleEnv).run ∧
    t.prog = .ret r ∧ w ∈ mutations t.hist ∧ sampleNamespace ∈ c.state.store.namespaces ∧
    ¬ ∃ p, (MutationCommand.bind sampleBind).AllowEntry w p ∧
      ∃ e ∈ c.state.store.auditEntries, Records e p := by
  obtain ⟨k, hist, h, hmut, hk⟩ := bind_until_key (G := unguarded) fun _ _ _ _ => trivial
  obtain ⟨k', hact, hret⟩ := hk sampleKey
  obtain ⟨reply, hreply⟩ := hret (.error (.storage (.transient "busy")))
  have h₁ := h.act 0 rfl (some sampleKey) sampleBound ⟨rfl, rfl⟩ trivial
  rw [hact] at h₁
  have h₂ := h₁.act 0 rfl (.error (.storage (.transient "busy"))) sampleBound
    ⟨(sampleCall 1).draw, some (.transient "busy"), rfl⟩ trivial
  refine ⟨_, _, _, .putNamespace sampleNamespace, h₂, List.mem_cons_self, rfl, hreply, ?_,
    List.mem_cons_self, ?_⟩
  · rw [mutations_concat, mutations_concat, hmut]
    exact List.mem_cons_self
  · rintro ⟨p, -, e, he, -⟩
    cases he

end MerkleVault.App.AuditCoverage
