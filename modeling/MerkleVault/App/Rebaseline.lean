import MerkleVault.App.AuditDurability
import MerkleVault.Sqlite.AuditRows

/-! # Setting the Audit Baseline

`SetAuditBaselineCommand` appends a marker under the current key, reads the pinned head back and pins
a baseline at what it read.  The marker is appended under the guard of `audit_log`, the head is read
without it: between the two another client may append.

* `anchored_iff`: the baseline is at the marker exactly when nothing was appended in between;
* `rebaseline_anchors_marker`: that, and what verifies from the baseline, in every interleaving;
* `append_between_moves_anchor`: an interleaving that anchors the baseline elsewhere. -/

namespace MerkleVault.App.Rebaseline

open MerkleVault.Types MerkleVault.External MerkleVault.Lib.Program MerkleVault.Identity
open MerkleVault.Audit.Entry MerkleVault.Audit.Writer MerkleVault.Audit.Chain
open MerkleVault.Audit.Verifier MerkleVault.Audit.Integrity MerkleVault.Audit.Baseline
open MerkleVault.Sqlite.Tables MerkleVault.Sqlite.AuditRows MerkleVault.App.Context
open MerkleVault.App.Lifecycle MerkleVault.App.AuditDurability

variable (K : Crates)

/-! ### The actions -/

/-- The actions of the context, and the statement that upserts the baseline. -/
inductive BaselineOp : Type → Type 1
  | app {β : Type} (op : Op β) : BaselineOp β
  | setAuditBaseline (baseline : AuditBaseline) : BaselineOp (Except StorageError Unit)

/-- The vault with the row of the baseline. -/
structure AuditState where
  app : AppState
  /-- The row of `audit_baseline`. -/
  baseline : Option AuditBaseline

/-- What one action does; a failed write of the baseline changes nothing. -/
def baselineExec {β : Type} : BaselineOp β → AuditState → β → AuditState → Prop
  | .app op, s, r, s' => exec K op s.app r s'.app ∧ s'.baseline = s.baseline
  | .setAuditBaseline b, s, r, s' =>
    r = .ok () ∧ s' = { s with baseline := some (storedBaseline b) } ∨ s' = s ∧ ∃ e, r = .error e

/-- The clients of log and baseline, with restarts. -/
def auditSystem (starts : Prog BaselineOp (Except AppError (Option UInt64)) → Prop) :
    System AuditState BaselineOp (Except AppError (Option UInt64)) where
  exec := baselineExec K
  starts := starts
  restart s s' := s' = { s with app := rebooted s.app }

/-! ### The command -/

/-- `SetAuditBaselineCommand`. -/
structure SetAuditBaselineCommand where
  reason : String
  confirmed : Bool

/-- A program over log and baseline. -/
abbrev AuditHandler (α : Type) := Cmd BaselineOp AppError α

/-- A command of the application. -/
def inAudit {α : Type} (x : Handler α) : AuditHandler α := embedded BaselineOp.app id x

/-- The entry of a rebaseline. -/
def rebaseline (ns : NamespaceId) : AppendParams :=
  { op := .rebaseline, outcome := .allow, namespaceId := ns, callerProgram := agent }

/-- The position of the baseline, which is also the number of entries below it. -/
def SetAuditBaselineCommand.execute (cmd : SetAuditBaselineCommand) :
    AuditHandler (Option UInt64) := do
  if !cmd.confirmed then throw (textFault "re-baseline requires explicit operator confirmation")
  else
    inAudit requireUnsealed
    let key ← inAudit requireHmacKey
    let ns ← inAudit newNamespaceId
    inAudit (auditCommit (rebaseline ns) key)
    let head ← orThrow (textFault "no pinned head after rebaseline marker append")
      (← inAudit (query .pinnedHead))
    let now ← call (.app (.port .now))
    let baseline := AuditBaseline.new head.headSeq head.headId head.headHash
      (saturatingSucc head.headSeq) cmd.reason now
    attempt .storage (.setAuditBaseline (baseline.withMac K key))
    return some head.headSeq

variable {K}

/-! ### The audit tables -/

/-- Numbers are unique and `i64`, the pinned head is that of the last entry, and the in-memory head
is that of an entry. -/
structure Tables (s : AppState) : Prop where
  seqs : (s.store.auditEntries.map (·.seq)).Nodup
  bounded : ∀ e ∈ s.store.auditEntries, e.seq.toNat < 2 ^ 63
  pinned : s.store.pinnedHead.map (fun p => (p.headHash, p.headSeq, p.headId)) =
    s.store.auditEntries.getLast?.map fun e => (e.currentHash, e.seq, e.id)
  memory : s.auditLog.head.isSome = true → ∃ e ∈ s.store.auditEntries, e.seq = s.auditLog.headSeq

theorem tables_of_blank {s : AppState} (h : Blank s) : Tables s := by
  refine ⟨?_, ?_, ?_, ?_⟩
  · simp [h.entries]
  · simp [h.entries]
  · rw [h.entries, h.pinned]
    rfl
  · simp [h.log, AuditLog.new]

/-- A commit that went through. -/
structure Committed (K : Crates) (s s' : AppState) (params : AppendParams) (key : Key)
    (e : AuditEntry) : Prop where
  entries : s'.store.auditEntries = s.store.auditEntries ++ [e]
  pinned : s'.store.pinnedHead = some (pinEntry K key e)
  log : s'.auditLog = s.auditLog.push e
  op : e.op = params.op
  tag : TagOk K key e
  fresh : ∀ f ∈ s.store.auditEntries, f.seq ≠ e.seq
  bounded : e.seq.toNat < 2 ^ 63

theorem Committed.tables {s s' : AppState} {params : AppendParams} {key : Key} {e : AuditEntry}
    (h : Tables s) (hc : Committed K s s' params key e) : Tables s' := by
  refine ⟨?_, ?_, ?_, ?_⟩
  · rw [hc.entries, List.map_append, List.map_singleton]
    refine h.seqs.append (List.nodup_singleton _) ?_
    rw [List.disjoint_singleton]
    intro hmem
    obtain ⟨f, hf, hseq⟩ := List.mem_map.mp hmem
    exact hc.fresh f hf hseq
  · rw [hc.entries]
    intro f hf
    rcases List.mem_append.mp hf with hf | hf
    · exact h.bounded f hf
    · rw [List.mem_singleton.mp hf]
      exact hc.bounded
  · rw [hc.entries, hc.pinned, List.getLast?_concat]
    rfl
  · intro _
    rw [hc.entries, hc.log]
    exact ⟨e, List.mem_append_right _ (List.mem_singleton.mpr rfl), rfl⟩

/-- The number that an append draws is an `i64` unless it meets a stored one. -/
theorem Tables.next_bounded {s : AppState} (h : Tables s) {params : AppendParams} {draw : Draw}
    {key : Key} {log : AuditLog} {e : AuditEntry} {head : PinnedHead}
    (ha : Appended K s.auditLog params draw key log e head) :
    e.seq.toNat < 2 ^ 63 ∨ ∃ f ∈ s.store.auditEntries, f.seq = saturateI64 e.seq := by
  have hseq := ha.seq
  cases hlog : s.auditLog.head with
  | none =>
    rw [hlog] at hseq
    have hzero : e.seq = 0 := hseq
    exact .inl (by rw [hzero]; decide)
  | some hash =>
    obtain ⟨f, hf, hfs⟩ := h.memory (by rw [hlog]; rfl)
    have hb := h.bounded f hf
    rw [hlog] at hseq
    have hnext : e.seq.toNat = f.seq.toNat + 1 := by
      rw [hseq, hfs, UInt64.toNat_add]
      rw [hfs] at hb
      simp only [UInt64.reduceToNat]
      omega
    by_cases hlt : e.seq.toNat < 2 ^ 63
    · exact .inl hlt
    · refine .inr ⟨f, hf, ?_⟩
      rw [saturateI64, if_neg (by omega)]
      refine UInt64.toNat_inj.mp ?_
      have hf63 : f.seq.toNat = 2 ^ 63 - 1 := by omega
      rw [hf63]
      rfl

/-- **One `audit_commit`** appends one entry, or leaves the tables. -/
theorem Tables.commit {s s' : AppState} (h : Tables s) {params : AppendParams} {key : Key}
    {draw : Draw} {fault : Option StorageError} {r : Except AppError Unit}
    (hx : auditCommitSection K params key draw fault s = (r, s')) :
    (r = .ok () ∧ ∃ e, Committed K s s' params key e) ∨
      (r ≠ .ok () ∧ s'.store = s.store ∧ Tables s') := by
  unfold auditCommitSection at hx
  split at hx
  · obtain ⟨rfl, rfl⟩ := Prod.mk.inj hx
    exact .inr ⟨nofun, rfl, h⟩
  · next log entry head happ =>
    obtain ⟨k, hk, ha⟩ := append_ok happ
    obtain rfl : key = k := Option.some.inj ((keyOfSlice_toList key).symm.trans hk)
    split at hx
    · obtain ⟨rfl, rfl⟩ := Prod.mk.inj hx
      refine .inr ⟨nofun, rfl, h.seqs, h.bounded, h.pinned, ?_⟩
      intro hsome
      cases hlog : s.auditLog.head with
      | none =>
        rw [hlog] at hsome
        cases hsome
      | some hash =>
        obtain ⟨f, hf, hfs⟩ := h.memory (by rw [hlog]; rfl)
        exact ⟨f, hf, hfs⟩
    · next store hstore =>
      obtain ⟨rfl, rfl⟩ := Prod.mk.inj hx
      have hc := (faulty_ok hstore).2
      unfold Store.commitAuditEntry at hc
      simp only at hc
      split_ifs at hc with hid hseq hhash
      obtain rfl := Except.ok.inj hc
      have hfresh : ∀ f ∈ s.store.auditEntries, f.seq ≠ saturateI64 entry.seq := by
        intro f hf heq
        exact hseq (List.any_eq_true.mpr ⟨f, hf, by simpa using heq⟩)
      have hlt : entry.seq.toNat < 2 ^ 63 := by
        rcases h.next_bounded ha with hlt | ⟨f, hf, heq⟩
        · exact hlt
        · exact absurd heq (hfresh f hf)
      have hsat : saturateI64 entry.seq = entry.seq := by rw [saturateI64, if_pos hlt]
      rw [hsat] at hfresh
      have hpin := ha.pinned_eq
      refine .inl ⟨rfl, entry, ?_, ?_, ha.log_eq, congrArg AuditEntry.op ha.part_eq, ha.hmac_eq,
        hfresh, hlt⟩
      · simp only [hsat]
      · subst hpin
        show some { pinEntry K key entry with headSeq := saturateI64 entry.seq } = _
        rw [hsat]
        rfl

/-! ### Along a path -/

/-- The entries that an action commits, and under which key. -/
def commitsUnder {β : Type} : Op β → β → Option Key
  | .auditCommit _ key, .ok () => some key
  | _, _ => none

/-- The entry that an action of this system commits, and under which key. -/
def writtenUnder {β : Type} : BaselineOp β → β → Option Key
  | .app op, r => commitsUnder op r
  | .setAuditBaseline _, _ => none

/-- The head that an action of this system installs. -/
def installsHead {β : Type} : BaselineOp β → Option (Option PinnedHead)
  | .app op => installs op
  | .setAuditBaseline _ => none

/-- The heads that seals install were read from the store. -/
def installsStored : Guard AuditState BaselineOp := fun _ s e =>
  ∀ p, installsHead e.op = some (some p) → ∃ f ∈ s.app.store.auditEntries, f.seq = p.headSeq

/-- What a step does to the audit tables: it commits one entry under a key, or none. -/
structure StepsTables (K : Crates) (s s' : AppState) (written : Option Key) : Prop where
  tables : Tables s'
  commits : ∀ key, written = some key → ∃ params e, Committed K s s' params key e
  keeps : written = none → s'.store.auditEntries = s.store.auditEntries ∧
    s'.store.pinnedHead = s.store.pinnedHead

theorem StepsTables.of_eq {s s' : AppState} (h : Tables s)
    (hes : s'.store.auditEntries = s.store.auditEntries)
    (hpin : s'.store.pinnedHead = s.store.pinnedHead) (hlog : s'.auditLog = s.auditLog) :
    StepsTables K s s' none := by
  refine ⟨⟨?_, ?_, ?_, ?_⟩, nofun, fun _ => ⟨hes, hpin⟩⟩
  · rw [hes]
    exact h.seqs
  · rw [hes]
    exact h.bounded
  · rw [hes, hpin]
    exact h.pinned
  · rw [hes, hlog]
    exact h.memory

theorem Tables.step {β : Type} {op : Op β} {s s' : AppState} {r : β} (h : Tables s)
    (hx : exec K op s r s')
    (hg : ∀ p, installs op = some (some p) → ∃ f ∈ s.store.auditEntries, f.seq = p.headSeq) :
    StepsTables K s s' (commitsUnder op r) := by
  cases op with
  | auditCommit params key =>
    obtain ⟨draw, fault, hx⟩ := hx
    rcases h.commit hx with ⟨rfl, e, hc⟩ | ⟨hr, hstore, ht⟩
    · refine ⟨hc.tables h, fun k hk => ?_, nofun⟩
      obtain rfl := Option.some.inj hk
      exact ⟨params, e, hc⟩
    · have hnone : commitsUnder (.auditCommit params key) r = none := by
        cases r with
        | ok u => exact absurd rfl hr
        | error e => rfl
      rw [hnone]
      exact ⟨ht, nofun, fun _ => by rw [hstore]; exact ⟨rfl, rfl⟩⟩
  | installHead p =>
    obtain rfl : s' = _ := hx
    refine ⟨⟨h.seqs, h.bounded, h.pinned, ?_⟩, nofun, fun _ => ⟨rfl, rfl⟩⟩
    intro hsome
    cases p with
    | none => cases hsome
    | some p => exact hg p rfl
  | write w =>
    obtain ⟨fault, hx⟩ := hx
    rcases writeSection_eq hx with ⟨-, store, hw, rfl⟩ | ⟨-, rfl⟩
    · obtain ⟨hes, hpin⟩ := Write.apply_audit hw
      exact .of_eq h hes hpin rfl
    · exact .of_eq h rfl rfl rfl
  | identity o =>
    obtain ⟨-, rfl⟩ := Prod.mk.inj hx
    exact .of_eq h rfl rfl rfl
  | readHmacKey =>
    obtain ⟨-, rfl⟩ := hx
    exact .of_eq h rfl rfl rfl
  | writeHmacKey key =>
    obtain rfl : s' = _ := hx
    exact .of_eq h rfl rfl rfl
  | query q =>
    obtain ⟨rfl, -⟩ := hx
    exact .of_eq h rfl rfl rfl
  | newUuid =>
    obtain ⟨-, rfl⟩ := hx
    exact .of_eq h rfl rfl rfl
  | registerUseToken key token =>
    obtain rfl : s' = _ := hx
    exact .of_eq h rfl rfl rfl
  | consumeUseToken key handle =>
    obtain ⟨now, hx⟩ := hx
    rw [consumeUseTokenSection_eq hx]
    exact .of_eq h rfl rfl rfl
  | port p =>
    obtain rfl : s' = _ := hx
    exact .of_eq h rfl rfl rfl

/-- The steps of the system, whoever takes them. -/
abbrev auditStep (K : Crates) (starts : Prog BaselineOp (Except AppError (Option UInt64)) → Prop)
    {β : Type} (op : BaselineOp β) (s : AuditState) (r : β) (s' : AuditState) : Prop :=
  (auditSystem K starts).admitted installsStored op s r s'

theorem auditStep_tables {starts : Prog BaselineOp (Except AppError (Option UInt64)) → Prop}
    {β : Type} {op : BaselineOp β} {s s' : AuditState} {r : β} (h : Tables s.app)
    (hx : auditStep K starts op s r s') : StepsTables K s.app s'.app (writtenUnder op r) := by
  obtain ⟨hx, hist, hg⟩ := hx
  cases op with
  | app op =>
    obtain ⟨hx, -⟩ := hx
    exact h.step hx hg
  | setAuditBaseline b =>
    rcases hx with ⟨-, rfl⟩ | ⟨rfl, -⟩
    · exact .of_eq h rfl rfl rfl
    · exact .of_eq h rfl rfl rfl

/-- The steps of a run. -/
abbrev AuditTrace := List (Transition AuditState BaselineOp)

section Paths

variable {starts : Prog BaselineOp (Except AppError (Option UInt64)) → Prop}

/-- The tables are in order along every path, and entries stay. -/
theorem path_tables {s s' : AuditState} {ts : AuditTrace} (h : Tables s.app)
    (hp : Path (auditStep K starts) s ts s') :
    Tables s'.app ∧ s.app.store.auditEntries <+: s'.app.store.auditEntries := by
  refine hp.inv (I := fun u => Tables u.app ∧ s.app.store.auditEntries <+: u.app.store.auditEntries)
    (E := fun _ => True) ?_ ⟨h, List.prefix_refl _⟩ fun _ _ => trivial
  rintro t ⟨ht, hpre⟩ hx -
  have hstep := auditStep_tables ht hx
  refine ⟨hstep.tables, ?_⟩
  cases hw : writtenUnder t.event.op t.event.res with
  | none =>
    rw [(hstep.keeps hw).1]
    exact hpre
  | some key =>
    obtain ⟨params, e, hc⟩ := hstep.commits key hw
    rw [hc.entries]
    exact hpre.trans (List.prefix_append _ _)

/-- What follows the entries `es` was written under the key, and so was the head. -/
def UnderKey (K : Crates) (key : Key) (es : List AuditEntry) (s : AppState) : Prop :=
  ∃ fs e, s.store.auditEntries = es ++ (fs ++ [e]) ∧ (∀ f ∈ fs ++ [e], TagOk K key f) ∧
    s.store.pinnedHead = some (pinEntry K key e)

/-- All that a path commits is committed under the key. -/
def WritesUnder (key : Key) (ts : AuditTrace) : Prop :=
  ∀ t ∈ ts, ∀ k, writtenUnder t.event.op t.event.res = some k → k = key

theorem Committed.underKey {s s' : AppState} {params : AppendParams} {key : Key} {e : AuditEntry}
    (hc : Committed K s s' params key e) : UnderKey K key s.store.auditEntries s' := by
  refine ⟨[], e, hc.entries, ?_, hc.pinned⟩
  intro f hf
  rw [List.mem_singleton.mp hf]
  exact hc.tag

theorem path_underKey {s s' : AuditState} {ts : AuditTrace} {key : Key} {es : List AuditEntry}
    (h : Tables s.app) (hu : UnderKey K key es s.app) (hp : Path (auditStep K starts) s ts s')
    (hw : WritesUnder key ts) : UnderKey K key es s'.app := by
  refine (hp.inv (I := fun u => Tables u.app ∧ UnderKey K key es u.app)
    (E := fun t => ∀ k, writtenUnder t.event.op t.event.res = some k → k = key) ?_ ⟨h, hu⟩ hw).2
  rintro t ⟨ht, fs, e, hes, htags, hpin⟩ hx hkey
  have hstep := auditStep_tables ht hx
  refine ⟨hstep.tables, ?_⟩
  cases hk : writtenUnder t.event.op t.event.res with
  | none =>
    obtain ⟨hes', hpin'⟩ := hstep.keeps hk
    exact ⟨fs, e, hes'.trans hes, htags, hpin'.trans hpin⟩
  | some k =>
    obtain rfl := hkey k hk
    obtain ⟨params, f, hc⟩ := hstep.commits k hk
    refine ⟨fs ++ [e], f, ?_, ?_, hc.pinned⟩
    · rw [hc.entries, hes]
      simp only [List.append_assoc]
    · intro g hg
      rcases List.mem_append.mp hg with hg | hg
      · exact htags g hg
      · rw [List.mem_singleton.mp hg]
        exact hc.tag

end Paths

/-! ### What an execution does -/

/-- An execution that returned: it committed its marker, read a head and stored a baseline there. -/
structure Execution (K : Crates) (cmd : SetAuditBaselineCommand) (trace : AuditTrace)
    (s' : AuditState) (key : Key) (before marked read : AuditState) (after : AuditTrace)
    (head : PinnedHead) : Prop where
  marker : ∃ ns past, trace = past ++
    ⟨true, before, ⟨.app (.auditCommit (rebaseline ns) key), .ok ()⟩, marked⟩ :: after
  read : ∃ mid late, after =
    mid ++ ⟨true, read, ⟨.app (.query .pinnedHead), .ok (some head)⟩, read⟩ :: late
  baseline : ∃ now, s'.baseline = some (storedBaseline ((AuditBaseline.new head.headSeq head.headId
    head.headHash (saturatingSucc head.headSeq) cmd.reason now).withMac K key))

section Shape

variable {starts : Prog BaselineOp (Except AppError (Option UInt64)) → Prop}

/-- What the clients may do, over the states of a run. -/
abbrev auditRules (K : Crates) (starts : Prog BaselineOp (Except AppError (Option UInt64)) → Prop) :
    Rules BaselineOp (AuditState × AuditTrace) := amongRules (auditStep K starts)

variable {m : AuditState × AuditTrace}

/-- A query leaves the state. -/
theorem queried_same {β : Type} {q : Query β} {s s' : AuditState} {r : Except StorageError β}
    (hx : baselineExec K (.app (.query q)) s r s') : s' = s := by
  obtain ⟨⟨happ, -⟩, hb⟩ := hx
  obtain ⟨app, b⟩ := s
  obtain ⟨app', b'⟩ := s'
  exact congrArg₂ AuditState.mk happ hb

theorem execute_shape {cmd : SetAuditBaselineCommand} {s s' : AuditState} {trace : AuditTrace}
    {out : Option UInt64}
    (hrun : RunsAmong (auditStep K starts) (cmd.execute K).run s trace (.ok out) s') :
    ∃ key before marked read after head, Execution K cmd trace s' key before marked read after head := by
  have hany : ∀ {α : Type} {x : Handler α} {m : AuditState × AuditTrace},
      Yields (auditRules K starts) (inAudit x) m fun _ _ => True :=
    wp_of_forall (fun _ _ => trivial) fun _ _ _ _ => trivial
  have hwp : Yields (auditRules K starts) (cmd.execute K) (s, []) fun m _ =>
      ∃ key before marked read after head,
        Execution K cmd m.2 m.1 key before marked read after head := by
    unfold SetAuditBaselineCommand.execute
    split
    · exact yields_throw _
    refine yields_bind hany fun m₁ _ _ => ?_
    refine yields_bind hany fun m₂ key _ => ?_
    refine yields_bind hany fun m₃ ns _ => ?_
    -- The marker.
    refine yields_bind (P := fun m _ => ∃ past before marked, m = (marked, past ++
      [⟨true, before, ⟨.app (.auditCommit (rebaseline ns) key), .ok ()⟩, marked⟩])) ?_ ?_
    · refine yields_embedded ⟨trivial, ?_⟩
      rintro r _ ⟨others, before, marked, -, -, rfl⟩ a ha
      cases r with
      | error e => cases ha
      | ok u => exact ⟨m₃.2 ++ others, before, marked, rfl⟩
    rintro _ - ⟨past, before, marked, rfl⟩
    -- The head.
    refine yields_bind (P := fun m o => ∃ mid read, m = (read, past ++
      ⟨true, before, ⟨.app (.auditCommit (rebaseline ns) key), .ok ()⟩, marked⟩ ::
        (mid ++ [⟨true, read, ⟨.app (.query .pinnedHead), .ok o⟩, read⟩]))) ?_ ?_
    · refine yields_embedded ⟨trivial, ?_⟩
      rintro r _ ⟨others, read, read', -, ⟨hx, -⟩, rfl⟩ o ho
      cases r with
      | error e => cases ho
      | ok o' =>
        obtain rfl := Except.ok.inj ho
        have hquery : baselineExec K (.app (.query .pinnedHead)) read (.ok o') read' := hx
        obtain rfl := queried_same hquery
        exact ⟨others, read', by simp⟩
    rintro _ o ⟨mid, read, rfl⟩
    refine yields_bind (yields_orThrow fun head ho => ?_) (P := fun m head =>
      m = (read, past ++ ⟨true, before, ⟨.app (.auditCommit (rebaseline ns) key), .ok ()⟩, marked⟩ ::
        (mid ++ [⟨true, read, ⟨.app (.query .pinnedHead), .ok (some head)⟩, read⟩]))) ?_
    · rw [ho]
    rintro _ head rfl
    refine yields_bind (P := fun m _ => ∃ late s₃, m = (s₃, past ++
      ⟨true, before, ⟨.app (.auditCommit (rebaseline ns) key), .ok ()⟩, marked⟩ ::
        (mid ++ ⟨true, read, ⟨.app (.query .pinnedHead), .ok (some head)⟩, read⟩ :: late))) ?_ ?_
    · refine yields_call trivial ?_
      rintro now _ ⟨others, s₂, s₃, -, -, rfl⟩
      exact ⟨others ++ [⟨true, s₂, ⟨.app (.port .now), now⟩, s₃⟩], s₃, by simp⟩
    rintro _ now ⟨late, s₃, rfl⟩
    -- The baseline.
    refine yields_bind (P := fun m _ => ∃ key before marked read after head,
      Execution K cmd m.2 m.1 key before marked read after head) ?_ fun m _ h => yields_pure h
    refine yields_attempt trivial ?_
    rintro u _ ⟨others, s₄, s₅, -, ⟨hx, -⟩, rfl⟩
    rcases hx with ⟨-, rfl⟩ | ⟨-, e, he⟩
    · exact ⟨key, before, marked, read, _, head, ⟨ns, past, by simp; rfl⟩, ⟨mid, _, rfl⟩, now, rfl⟩
    · cases he
  have h := wp_runsAmong hwp hrun out rfl
  rwa [List.nil_append] at h

end Shape

/-! ### Where the baseline is -/

/-- The baseline stands at the entry. -/
structure Anchored (b : AuditBaseline) (e : AuditEntry) : Prop where
  seq : b.baselineSeq = e.seq
  id : b.baselineId = e.id
  hash : b.baselineHash = e.currentHash

/-- The tables around the marker and the read. -/
structure Around (K : Crates) (key : Key) (before marked read s' : AppState) (head : PinnedHead)
    (e last : AuditEntry) : Prop where
  marker : marked.store.auditEntries = before.store.auditEntries ++ [e]
  op : e.op = .rebaseline
  written : UnderKey K key before.store.auditEntries marked
  upToRead : marked.store.auditEntries <+: read.store.auditEntries
  fromRead : read.store.auditEntries <+: s'.store.auditEntries
  lastRead : read.store.auditEntries.getLast? = some last
  headRead : (head.headHash, head.headSeq, head.headId) = (last.currentHash, last.seq, last.id)
  tablesMarked : Tables marked
  tablesRead : Tables read
  tables : Tables s'

section Anchor

variable {starts : Prog BaselineOp (Except AppError (Option UInt64)) → Prop}
  {cmd : SetAuditBaselineCommand} {s s' : AuditState} {trace after : AuditTrace} {key : Key}
  {before marked read : AuditState} {head : PinnedHead}

theorem Execution.around (h : Execution K cmd trace s' key before marked read after head)
    (h₀ : Tables s.app) (hp : Path (auditStep K starts) s trace s') :
    (∃ e last, Around K key before.app marked.app read.app s'.app head e last) ∧
      Path (auditStep K starts) marked after s' := by
  obtain ⟨ns, past, rfl⟩ := h.marker
  obtain ⟨s₁, hpast, rfl, hmark, hafter⟩ := path_append.mp hp
  have hstep := auditStep_tables (path_tables h₀ hpast).1 hmark
  obtain ⟨params, e, hc⟩ := hstep.commits key rfl
  have hop : e.op = .rebaseline := by
    obtain ⟨⟨⟨draw, fault, hx⟩, -⟩, -⟩ := hmark
    rcases (path_tables h₀ hpast).1.commit hx with ⟨-, f, hf⟩ | ⟨hne, -⟩
    · have hsame : e = f := by simpa using hc.entries.symm.trans hf.entries
      rw [hsame]
      exact hf.op
    · exact absurd rfl hne
  refine ⟨?_, hafter⟩
  obtain ⟨mid, late, rfl⟩ := h.read
  obtain ⟨s₂, hmid, rfl, hread, hlate⟩ := path_append.mp hafter
  have htr := path_tables hstep.tables hmid
  have htl := path_tables htr.1 hlate
  obtain ⟨⟨⟨-, fault, hhead⟩, -⟩, -⟩ := hread
  have hpin : read.app.store.pinnedHead = some head := Except.ok.inj (faulty_ok hhead.symm).2
  have hlast := htr.1.pinned
  rw [hpin] at hlast
  obtain ⟨last, hl, heq⟩ := Option.map_eq_some_iff.mp hlast.symm
  exact ⟨e, last, hc.entries, hop, hc.underKey, htr.2, htl.2, hl, heq.symm, hstep.tables, htr.1,
    htl.1⟩

theorem Around.anchored_iff {before marked read s' : AppState} {e last : AuditEntry}
    {now : Rfc3339Timestamp} (h : Around K key before marked read s' head e last) :
    Anchored (storedBaseline ((AuditBaseline.new head.headSeq head.headId head.headHash
      (saturatingSucc head.headSeq) cmd.reason now).withMac K key)) e ↔
      read.store.auditEntries = marked.store.auditEntries := by
  obtain ⟨hhash, hseq, hid⟩ : head.headHash = last.currentHash ∧ head.headSeq = last.seq ∧
      head.headId = last.id := by simpa using h.headRead
  have hlastMem : last ∈ read.store.auditEntries := List.mem_of_getLast? h.lastRead
  have hsat : saturateI64 last.seq = last.seq := by
    rw [saturateI64, if_pos (h.tablesRead.bounded last hlastMem)]
  constructor
  · intro ha
    have hs : last.seq = e.seq := by
      have := ha.seq
      rw [← hsat, ← hseq]
      exact this
    obtain ⟨later, hlater⟩ := h.upToRead
    rcases List.eq_nil_or_concat' later with rfl | ⟨fs, f, rfl⟩
    · rw [← hlater, List.append_nil]
    · -- An entry after the marker has another number.
      have hf : last = f := by
        have hl := h.lastRead
        rw [← hlater, ← List.append_assoc, List.getLast?_concat] at hl
        exact (Option.some.inj hl).symm
      have hnd := h.tablesRead.seqs
      rw [← hlater, ← List.append_assoc, List.map_append, List.map_singleton] at hnd
      have hdisj := List.disjoint_of_nodup_append hnd
      refine absurd (List.mem_singleton.mpr rfl) (hdisj (a := f.seq) (List.mem_map.mpr ⟨e, ?_, ?_⟩))
      · rw [h.marker]
        simp
      · rw [← hs, hf]
  · intro heq
    obtain rfl : last = e := by
      have hl := h.lastRead
      rw [heq, h.marker, List.getLast?_concat] at hl
      exact (Option.some.inj hl).symm
    refine ⟨?_, hid, hhash⟩
    show saturateI64 head.headSeq = last.seq
    rw [hseq, hsat]

/-- In a linked log that fits, the columns keep the numbers of the baseline. -/
theorem Around.numbers_fit {before marked read s' : AppState} {e last : AuditEntry}
    (h : Around K key before marked read s' head e last)
    (hl : Linked K none s'.store.auditEntries) (hlen : s'.store.auditEntries.length < 2 ^ 63) :
    saturateI64 head.headSeq = head.headSeq ∧
      saturateI64 (saturatingSucc head.headSeq) = saturatingSucc head.headSeq := by
  obtain ⟨-, hseq, -⟩ : head.headHash = last.currentHash ∧ head.headSeq = last.seq ∧
      head.headId = last.id := by simpa using h.headRead
  have hmem : last ∈ s'.store.auditEntries := h.fromRead.subset (List.mem_of_getLast? h.lastRead)
  obtain ⟨i, hi, hlast⟩ := List.getElem_of_mem hmem
  have hnat : head.headSeq.toNat < s'.store.auditEntries.length := by
    rw [hseq, ← hlast, hl.seq_toNat (by omega) i hi]
    exact hi
  have hsucc : saturatingSucc head.headSeq = head.headSeq + 1 := by
    rw [saturatingSucc, if_neg]
    intro hmax
    rw [hmax] at hnat
    simp at hnat
    omega
  have hsuccNat : (head.headSeq + 1).toNat < 2 ^ 63 := by
    rw [UInt64.toNat_add]
    simp only [UInt64.reduceToNat]
    omega
  rw [hsucc]
  exact ⟨by rw [saturateI64, if_pos (by omega)], by rw [saturateI64, if_pos hsuccNat]⟩

/-- Where everything from the marker on was written under the key, the log is evidence for the
baseline. -/
theorem Around.evidence {before marked read s' : AppState} {e last : AuditEntry}
    (cmd : SetAuditBaselineCommand) (now : Rfc3339Timestamp)
    (h : Around K key before marked read s' head e last)
    (hu : UnderKey K key before.store.auditEntries s')
    (hl : Linked K none s'.store.auditEntries) (hlen : s'.store.auditEntries.length < 2 ^ 63) :
    ∃ pinned, s'.store.pinnedHead = some pinned ∧ BaselineEvidence K key
      (storedBaseline ((AuditBaseline.new head.headSeq head.headId head.headHash
        (saturatingSucc head.headSeq) cmd.reason now).withMac K key)) s'.store.auditEntries pinned := by
  obtain ⟨hhash, hseq, -⟩ : head.headHash = last.currentHash ∧ head.headSeq = last.seq ∧
      head.headId = last.id := by simpa using h.headRead
  have hmem : last ∈ s'.store.auditEntries := h.fromRead.subset (List.mem_of_getLast? h.lastRead)
  have hlen64 : s'.store.auditEntries.length < 2 ^ 64 := by omega
  obtain ⟨fs, f, hes, htags, hpin⟩ := hu
  obtain ⟨hfit, hcount⟩ := h.numbers_fit hl hlen
  have hstored : saturateI64 head.headSeq = last.seq := hfit.trans hseq
  refine ⟨pinEntry K key f, hpin, ?_, ?_, continues_of_linked hl, hl.hashOk, ?_, ?_, ?_, ?_⟩
  · -- The tag does not cover the time, which the column cuts.
    simp only [storedBaseline, AuditBaseline.withMac, AuditBaseline.new, AuditBaseline.computeMac,
      AuditBaseline.macInput, hfit, hcount]
  · obtain ⟨g, gs, hgs⟩ := List.exists_cons_of_ne_nil (List.ne_nil_of_mem hmem)
    have hg : s'.store.auditEntries.head? = some g := by rw [hgs]; rfl
    exact ⟨g, hg, linked_head_anchored hl g hg⟩
  · -- At and above the baseline are only entries from the marker on.
    intro g hg hle
    obtain ⟨i, hi, rfl⟩ := List.getElem_of_mem hg
    have hread : before.store.auditEntries.length < read.store.auditEntries.length := by
      have := h.upToRead.length_le
      rw [h.marker, List.length_append] at this
      exact this
    have hlastNat : last.seq.toNat + 1 = read.store.auditEntries.length := by
      have hl' := h.lastRead
      rw [List.getLast?_eq_getElem?, List.getElem?_eq_some_iff] at hl'
      obtain ⟨hj, hlast⟩ := hl'
      have hsame := h.fromRead.getElem hj
      have hjlen := h.fromRead.length_le
      rw [← hlast, hsame, hl.seq_toNat hlen64 _ (by omega)]
      omega
    have hile : before.store.auditEntries.length ≤ i := by
      have := UInt64.le_iff_toNat_le.mp hle
      rw [hl.seq_toNat hlen64 i hi] at this
      have hbase : last.seq.toNat ≤ i := by rw [← hstored]; exact this
      omega
    refine htags _ ?_
    have hget := List.getElem_of_eq hes hi
    rw [hget, List.getElem_append_right hile]
    exact List.getElem_mem _
  · exact ⟨last, hmem, hstored.symm, hhash.symm⟩
  · have hl' := hl
    rw [hes, ← List.append_assoc] at hl'
    have hsat : saturatingSucc (pinEntry K key f).headSeq = f.seq + 1 :=
      saturatingSucc_last hl' (by rw [List.append_assoc, ← hes]; exact hlen64)
    rw [hsat]
    rfl
  · refine ⟨f, ?_, rfl, rfl⟩
    rw [hes, ← List.append_assoc, List.getLast?_concat]

end Anchor

/-! ### Interleavings -/

theorem Tables.reboot {s : AppState} (h : Tables s) : Tables (rebooted s) := by
  refine ⟨h.seqs, h.bounded, h.pinned, ?_⟩
  have hpin := h.pinned
  intro hsome
  change (restoreAuditChain s.store.pinnedHead).head.isSome = true at hsome
  show ∃ e ∈ s.store.auditEntries, e.seq = (restoreAuditChain s.store.pinnedHead).headSeq
  cases hp : s.store.pinnedHead with
  | none =>
    rw [hp] at hsome
    cases hsome
  | some p =>
    rw [hp] at hpin
    obtain ⟨e, he, heq⟩ := Option.map_eq_some_iff.mp hpin.symm
    exact ⟨e, List.mem_of_getLast? he, (Prod.mk.inj (Prod.mk.inj heq).2).1⟩

/-- What a rebaseline among other clients has done when it returned.  It appended one marker entry;
the baseline it stored is at the marker exactly when no entry was appended between the marker and its
read of the head.  Wherever the baseline is, the persisted log verifies from it under the key of the
execution, when the log is linked, holds fewer than `2 ^ 63` entries and everything from the marker on
was written under that key. -/
def AnchorsMarker (K : Crates) (starts : Prog BaselineOp (Except AppError (Option UInt64)) → Prop)
    (cmd : SetAuditBaselineCommand) (t : Task BaselineOp (Except AppError (Option UInt64)))
    (out : Option UInt64) : Prop :=
  ∃ s₁ trace s' key before marked read after head e b, ownEvents trace = t.hist ∧
    RunsAmong (auditStep K starts) t.source s₁ trace (.ok out) s' ∧
    Execution K cmd trace s' key before marked read after head ∧
    marked.app.store.auditEntries = before.app.store.auditEntries ++ [e] ∧ e.op = .rebaseline ∧
    s'.baseline = some b ∧
    (Anchored b e ↔ read.app.store.auditEntries = marked.app.store.auditEntries) ∧
    (Linked K none s'.app.store.auditEntries → s'.app.store.auditEntries.length < 2 ^ 63 →
      WritesUnder key after → ∃ pinned, s'.app.store.pinnedHead = some pinned ∧ ∀ now,
        (verifyFromBaseline K (AuditLog.fromPersisted s'.app.store.auditEntries) pinned b key.toList
          now).outcome = .intact)

/-- **A rebaseline among other clients**, whatever programs these are, from a blank log. -/
theorem rebaseline_anchors_marker (K : Crates)
    (starts : Prog BaselineOp (Except AppError (Option UInt64)) → Prop) (s₀ : AuditState)
    (h₀ : Blank s₀.app) (c : Config AuditState BaselineOp (Except AppError (Option UInt64)))
    (h : Reachable (auditSystem K starts) installsStored s₀ c) (cmd : SetAuditBaselineCommand)
    (t : Task BaselineOp (Except AppError (Option UInt64))) (ht : t ∈ c.tasks)
    (hsource : t.source = (cmd.execute K).run) (out : Option UInt64)
    (hend : t.prog = .ret (.ok out)) : AnchorsMarker K starts cmd t out := by
  obtain ⟨c₁, trace, s', others, hc₁, hown, hrun, -⟩ := h.among_ended ht hend
  have htables : Tables c₁.state.app := by
    refine hc₁.inv (fun s => Tables s.app) (tables_of_blank h₀) ?_ ?_
    · intro β op hist s u r hI hx hg
      have hstep : auditStep K starts op s r u := ⟨hx, hist, hg⟩
      exact (auditStep_tables hI hstep).tables
    · rintro s _ hI rfl
      exact hI.reboot
  rw [hsource] at hrun
  obtain ⟨key, before, marked, read, after, head, hexec⟩ := execute_shape hrun
  obtain ⟨⟨e, last, ha⟩, hafter⟩ := hexec.around htables hrun.path
  obtain ⟨now, hb⟩ := hexec.baseline
  refine ⟨c₁.state, trace, s', key, before, marked, read, after, head, e, _, hown,
    by rw [hsource]; exact hrun, hexec, ha.marker, ha.op, hb, ha.anchored_iff, ?_⟩
  intro hl hlen hw
  have hu := path_underKey ha.tablesMarked ha.written hafter hw
  obtain ⟨pinned, hpin, hev⟩ := ha.evidence cmd now hu hl hlen
  refine ⟨pinned, hpin, fun now' => ?_⟩
  have hlen64 : (AuditLog.fromPersisted s'.app.store.auditEntries).entries.length < 2 ^ 64 := by
    show s'.app.store.auditEntries.length < 2 ^ 64
    omega
  exact (verifyFromBaseline_of_evidence now' hlen64 hev).1

/-! ### Runs on a blank log -/

/-- A rebaseline that was confirmed. -/
def sampleCommand : SetAuditBaselineCommand := ⟨"key rotation", true⟩

/-- One audited action of another client. -/
def otherClient : Prog BaselineOp (Except AppError (Option UInt64)) :=
  (do inAudit (auditCommit sampleParams sampleKey); return none : AuditHandler (Option UInt64)).run

/-- A vault without a baseline. -/
def sampleAudit : AuditState := ⟨sampleState, none⟩

/-- The rebaseline, and another client. -/
def sampleStarts (p : Prog BaselineOp (Except AppError (Option UInt64))) : Prop :=
  p = (sampleCommand.execute sampleCrates).run ∨ p = otherClient

/-- A commit that finds room: nothing stored has its identifier, its number or its hash. -/
theorem commit_fresh (params : AppendParams) (id : AuditEntryId) (s : AppState) (seq : UInt64)
    (hash : Blake3Hash) (hseq : (match s.auditLog.head with
      | none => 0
      | some _ => s.auditLog.headSeq + 1) = seq) (hlt : seq.toNat < 2 ^ 63)
    (hhash : (if s.auditLog.head.getD genesis = genesis then ⟨Vector.replicate 32 1⟩
      else ⟨Vector.replicate 32 2⟩) = hash)
    (hfresh : ∀ f ∈ s.store.auditEntries, f.id ≠ id ∧ f.seq ≠ seq ∧ f.currentHash ≠ hash) :
    ∃ s' e, auditCommitSection sampleCrates params sampleKey ⟨id, epoch⟩ none s = (.ok (), s') ∧
      s' = { s with
        auditLog := s.auditLog.push e
        store := { s.store with
          auditEntries := s.store.auditEntries ++ [e]
          pinnedHead := some (pinEntry sampleCrates sampleKey e) } } ∧
      e.id = id ∧ e.op = params.op ∧ e.seq = seq ∧ e.currentHash = hash := by
  obtain ⟨log, e, head, happ⟩ := exists_append sampleCrates s.auditLog params sampleKey ⟨id, epoch⟩
  obtain ⟨key, hkey, ha⟩ := append_ok happ
  obtain rfl := Option.some.inj ((keyOfSlice_toList sampleKey).symm.trans hkey)
  have hes : e.seq = seq := ha.seq.trans hseq
  have heh : e.currentHash = hash := by
    obtain ⟨bs, hbs, hh⟩ := ha.hash_eq
    rw [← hh, sample_hash hbs, hhash]
  have hei : e.id = id := congrArg AuditEntry.id ha.part_eq
  have hl := ha.log_eq
  have hpin := ha.pinned_eq
  subst hl hpin
  refine ⟨_, e, ?_, rfl, hei, congrArg AuditEntry.op ha.part_eq, hes, heh⟩
  have hsat : saturateI64 e.seq = e.seq := by rw [saturateI64, if_pos (by rw [hes]; exact hlt)]
  have hsat' : saturateI64 (pinEntry sampleCrates sampleKey e).headSeq =
      (pinEntry sampleCrates sampleKey e).headSeq := hsat
  have hnone : ∀ q : AuditEntry → Bool, (∀ f ∈ s.store.auditEntries, q f = false) →
      s.store.auditEntries.any q = false := fun q hq => List.any_eq_false.mpr fun f hf => by simp [hq f hf]
  have h₁ := hnone (fun r => r.id = e.id) fun f hf => by simp [hei, (hfresh f hf).1]
  have h₂ := hnone (fun r => r.seq = e.seq) fun f hf => by simp [hes, (hfresh f hf).2.1]
  have h₃ := hnone (fun r => r.currentHash = e.currentHash) fun f hf => by
    simp [heh, (hfresh f hf).2.2]
  unfold auditCommitSection
  rw [happ]
  simp only [faulty, Store.commitAuditEntry, hsat, hsat', h₁, h₂, h₃, Bool.false_eq_true, if_false]

/-- The guard holds of every action that installs no head. -/
theorem installsStored_of_none {hist : List (Event BaselineOp)} {s : AuditState}
    {e : Event BaselineOp} (h : installsHead e.op = none) : installsStored hist s e := by
  intro p hp
  rw [h] at hp
  cases hp

/-- The baseline that the sample command stores when the head is that of an entry. -/
def sampleBaselineAt (e : AuditEntry) : AuditBaseline :=
  storedBaseline ((AuditBaseline.new e.seq e.id e.currentHash (saturatingSucc e.seq) "key rotation"
    epoch).withMac sampleCrates sampleKey)

/-- Another client appends between the marker and the read of the head: the baseline stands at that
client's entry. -/
theorem append_between_moves_anchor : ∃ (c : Config AuditState BaselineOp
      (Except AppError (Option UInt64))) (t : Task BaselineOp (Except AppError (Option UInt64)))
      (e f : AuditEntry) (b : AuditBaseline), Blank sampleAudit.app ∧
    Reachable (auditSystem sampleCrates sampleStarts) installsStored sampleAudit c ∧ t ∈ c.tasks ∧
    t.source = (sampleCommand.execute sampleCrates).run ∧ t.prog = .ret (.ok (some 1)) ∧
    c.state.app.store.auditEntries = [e, f] ∧ e.op = .rebaseline ∧ f.op ≠ .rebaseline ∧
    c.state.baseline = some b ∧ ¬ Anchored b e ∧ Anchored b f := by
  let u : Uuid := Vector.replicate 16 1
  let s₁ : AppState := { sampleState with issued := [u] }
  obtain ⟨s₂, e, hx₁, hs₂, hei, heop, hes, heh⟩ := commit_fresh (rebaseline ⟨u⟩)
    ⟨Vector.replicate 16 2⟩ s₁ 0 ⟨Vector.replicate 32 1⟩ rfl (by decide) rfl
    fun _ hf => absurd hf List.not_mem_nil
  obtain ⟨s₃, f, hx₂, hs₃, -, hfop, hfs, hfh⟩ := commit_fresh sampleParams ⟨Vector.replicate 16 3⟩ s₂
    1 ⟨Vector.replicate 32 2⟩ (by rw [hs₂]; show e.seq + 1 = 1; rw [hes]; rfl) (by decide)
    (by rw [hs₂]; show (if e.currentHash = genesis then _ else _) = _; rw [heh]; rfl)
    (by
      rw [hs₂]
      intro g hg
      obtain rfl : g = e := List.mem_singleton.mp hg
      rw [hei, hes, heh]
      exact ⟨by decide, by decide, by decide⟩)
  have hentries : s₃.store.auditEntries = [e, f] := by
    rw [hs₃, hs₂]
    rfl
  have hpin : s₃.store.pinnedHead = some (pinEntry sampleCrates sampleKey f) := by rw [hs₃]
  have h₀ := Reachable.here (auditSystem sampleCrates sampleStarts) installsStored sampleAudit
  have h₂ := (h₀.start _ (.inl rfl)).start _ (.inr rfl)
  have h₃ := h₂.act 0 rfl true sampleAudit ⟨rfl, rfl⟩ (installsStored_of_none rfl)
  have h₄ := h₃.act 0 rfl (some sampleKey) sampleAudit ⟨⟨rfl, rfl⟩, rfl⟩ (installsStored_of_none rfl)
  have h₅ := h₄.act 0 rfl u ⟨s₁, none⟩ ⟨⟨List.not_mem_nil, rfl⟩, rfl⟩ (installsStored_of_none rfl)
  have h₆ := h₅.act 0 rfl (.ok ()) ⟨s₂, none⟩ ⟨⟨_, _, hx₁⟩, rfl⟩ (installsStored_of_none rfl)
  have h₇ := h₆.act 1 rfl (.ok ()) ⟨s₃, none⟩ ⟨⟨_, _, hx₂⟩, rfl⟩ (installsStored_of_none rfl)
  have h₈ := h₇.act 0 rfl (.ok s₃.store.pinnedHead) ⟨s₃, none⟩ ⟨⟨rfl, none, rfl⟩, rfl⟩
    (installsStored_of_none rfl)
  rw [hpin] at h₈
  have h₉ := h₈.act 0 rfl epoch ⟨s₃, none⟩ ⟨rfl, rfl⟩ (installsStored_of_none rfl)
  have h₁₀ := h₉.act 0 rfl (.ok ()) ⟨s₃, some (sampleBaselineAt f)⟩ (.inl ⟨rfl, rfl⟩)
    (installsStored_of_none rfl)
  refine ⟨_, _, e, f, _, sampleState_blank, h₁₀, List.mem_cons_self, rfl, ?_, hentries, heop, ?_, rfl,
    ?_, ?_⟩
  · show Prog.ret (Except.ok (some f.seq)) = _
    rw [hfs]
  · rw [hfop]
    decide
  · intro ha
    have hseq : saturateI64 f.seq = e.seq := ha.seq
    rw [hfs, hes] at hseq
    exact absurd hseq (by decide)
  · refine ⟨?_, rfl, rfl⟩
    show saturateI64 f.seq = f.seq
    rw [hfs]
    decide

/-- Nothing comes between: the baseline stands at the marker. -/
theorem undisturbed_rebaseline_anchors : ∃ (c : Config AuditState BaselineOp
      (Except AppError (Option UInt64))) (t : Task BaselineOp (Except AppError (Option UInt64)))
      (e : AuditEntry) (b : AuditBaseline),
    Reachable (auditSystem sampleCrates sampleStarts) installsStored sampleAudit c ∧ t ∈ c.tasks ∧
    t.source = (sampleCommand.execute sampleCrates).run ∧ t.prog = .ret (.ok (some e.seq)) ∧
    AnchorsMarker sampleCrates sampleStarts sampleCommand t (some e.seq) ∧
    c.state.app.store.auditEntries = [e] ∧ e.op = .rebaseline ∧ c.state.baseline = some b ∧
    Anchored b e := by
  let u : Uuid := Vector.replicate 16 1
  let s₁ : AppState := { sampleState with issued := [u] }
  obtain ⟨s₂, e, hx₁, hs₂, -, heop, hes, -⟩ := commit_fresh (rebaseline ⟨u⟩)
    ⟨Vector.replicate 16 2⟩ s₁ 0 ⟨Vector.replicate 32 1⟩ rfl (by decide) rfl
    fun _ hf => absurd hf List.not_mem_nil
  have hentries : s₂.store.auditEntries = [e] := by
    rw [hs₂]
    rfl
  have hpin : s₂.store.pinnedHead = some (pinEntry sampleCrates sampleKey e) := by rw [hs₂]
  have h₀ := Reachable.here (auditSystem sampleCrates sampleStarts) installsStored sampleAudit
  have h₂ := h₀.start _ (.inl rfl)
  have h₃ := h₂.act 0 rfl true sampleAudit ⟨rfl, rfl⟩ (installsStored_of_none rfl)
  have h₄ := h₃.act 0 rfl (some sampleKey) sampleAudit ⟨⟨rfl, rfl⟩, rfl⟩ (installsStored_of_none rfl)
  have h₅ := h₄.act 0 rfl u ⟨s₁, none⟩ ⟨⟨List.not_mem_nil, rfl⟩, rfl⟩ (installsStored_of_none rfl)
  have h₆ := h₅.act 0 rfl (.ok ()) ⟨s₂, none⟩ ⟨⟨_, _, hx₁⟩, rfl⟩ (installsStored_of_none rfl)
  have h₇ := h₆.act 0 rfl (.ok s₂.store.pinnedHead) ⟨s₂, none⟩ ⟨⟨rfl, none, rfl⟩, rfl⟩
    (installsStored_of_none rfl)
  rw [hpin] at h₇
  have h₈ := h₇.act 0 rfl epoch ⟨s₂, none⟩ ⟨rfl, rfl⟩ (installsStored_of_none rfl)
  have h₉ := h₈.act 0 rfl (.ok ()) ⟨s₂, some (sampleBaselineAt e)⟩ (.inl ⟨rfl, rfl⟩)
    (installsStored_of_none rfl)
  refine ⟨_, _, e, _, h₉, List.mem_cons_self, rfl, rfl, ?_, hentries, heop, rfl, ?_, rfl, rfl⟩
  · exact rebaseline_anchors_marker sampleCrates sampleStarts sampleAudit sampleState_blank _ h₉
      sampleCommand _ List.mem_cons_self rfl _ rfl
  · show saturateI64 e.seq = e.seq
    rw [hes]
    decide

end MerkleVault.App.Rebaseline
