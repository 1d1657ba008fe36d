import MerkleVault.App.Rebaseline

/-! # Verifying the Chain while it Grows

The chain is verified every hour, by the doctor and on demand, while other clients append, seal and
pin baselines.  `audit_snapshot` reads entries, head and baseline in one transaction.

A seal may install a head that is no longer the persisted one.  What is appended after it takes a
sequence number that is stored already, and the unique index refuses it: the in-memory head can be
behind, the persisted chain stays one chain.

* `Sound.commit`: a commit extends the chain or leaves it, from any stored entry as the head;
* `chain_sound_of_reachable`: the persisted chain is authentic in every interleaving;
* `verification_intact`: whatever a verification finds, it is not a broken chain. -/

namespace MerkleVault.App.ChainVerification

open MerkleVault.Types MerkleVault.External MerkleVault.Lib.Program MerkleVault.Identity
open MerkleVault.Audit.Entry MerkleVault.Audit.Writer MerkleVault.Audit.Chain
open MerkleVault.Audit.Verifier MerkleVault.Audit.Integrity MerkleVault.Audit.Baseline
open MerkleVault.Sqlite.Tables MerkleVault.Sqlite.AuditRows MerkleVault.App.Context
open MerkleVault.App.Lifecycle MerkleVault.App.AuditDurability MerkleVault.App.Rebaseline

variable (K : Crates)

/-! ### The actions -/

/-- The actions of the audit system, and the transaction that reads its three tables. -/
inductive CheckOp : Type → Type 1
  | audit {β : Type} (op : BaselineOp β) : CheckOp β
  | auditSnapshot : CheckOp (Except StorageError AuditSnapshot)

/-- What the rows read back to: `ORDER BY seq ASC`, times at microseconds. -/
def snapshotOf (s : AuditState) : AuditSnapshot where
  entries := (s.app.store.auditEntries.mergeSort fun a b => a.seq ≤ b.seq).map stored
  pinnedHead := s.app.store.pinnedHead.map fun p => { p with updatedAt := p.updatedAt.atMicros }
  baseline := s.baseline

/-- A row that does not read back fails the transaction, as a fault does. -/
def checkExec {β : Type} : CheckOp β → AuditState → β → AuditState → Prop
  | .audit op, s, r, s' => baselineExec K op s r s'
  | .auditSnapshot, s, r, s' => s' = s ∧ ∃ fault, r = faulty fault (.ok (snapshotOf s))

/-! ### The programs -/

/-- What a client gets. -/
inductive CheckReply
  | app (reply : Reply)
  | rebaselined (position : Option UInt64)
  | verified (result : ChainVerifyResult)

/-- A program over the log, its baseline and snapshots. -/
abbrev CheckHandler (α : Type) := Cmd CheckOp AppError α

/-- A command over log and baseline. -/
def inCheck {α : Type} (x : AuditHandler α) : CheckHandler α := embedded CheckOp.audit id x

/-- A vault whose chain has no head. -/
def noPinnedHead : AppError := textFault "no pinned head found — vault may be uninitialized"

/-- From the baseline when one is pinned, else the whole chain. -/
def verifySnapshot (snapshot : AuditSnapshot) (pinnedHead : PinnedHead) (hmacKey : Key)
    (now : Rfc3339Timestamp) : ChainVerifyResult :=
  let log := AuditLog.fromPersisted snapshot.entries
  match snapshot.baseline with
  | some baseline => verifyFromBaseline K log pinnedHead baseline hmacKey.toList now
  | none => verifyFull K log pinnedHead hmacKey.toList now

/-- `VerifyChainQuery::execute`. -/
def verifyChainExecute : CheckHandler CheckReply := do
  inCheck (inAudit requireUnsealed)
  let hmacKey ← inCheck (inAudit requireHmacKey)
  let snapshot ← attempt .storage .auditSnapshot
  let pinnedHead ← orThrow noPinnedHead snapshot.pinnedHead
  let now ← call (.audit (.app (.port .now)))
  return .verified (verifySnapshot K snapshot pinnedHead hmacKey now)

/-- A seal. -/
def sealed : CheckHandler CheckReply := do
  return .app (← inCheck (inAudit sealVaultExecute))

/-- A rebaseline. -/
def rebaselined (cmd : SetAuditBaselineCommand) : CheckHandler CheckReply := do
  return .rebaselined (← inCheck (cmd.execute K))

/-- Actions that neither install a head nor touch the baseline. -/
def ordinary {β : Type} : Op β → Prop
  | .installHead _ => False
  | _ => True

/-- The programs that run in any order. -/
inductive CheckClient : Prog CheckOp (Except AppError CheckReply) → Prop
  | verify : CheckClient (verifyChainExecute K).run
  | sealing : CheckClient sealed.run
  | rebaseline (cmd : SetAuditBaselineCommand) : CheckClient (rebaselined K cmd).run
  /-- Whatever else the agent runs. -/
  | other (x : Handler Reply) (h : Only ordinary x.run) :
      CheckClient (do return .app (← inCheck (inAudit x)) : CheckHandler CheckReply).run

variable {K}

/-- The vault has one audit key: every key that is read is it, and entries are written under it. -/
def oneKeyOp (key : Key) {β : Type} : Op β → β → Prop
  | .readHmacKey, r => ∀ k, r = some k → k = key
  | .auditCommit _ k, _ => k = key
  | _, _ => True

/-- Entries are written under one key. -/
def oneKeyCheck (key : Key) {β : Type} : CheckOp β → β → Prop
  | .audit (.app op), r => oneKeyOp key op r
  | _, _ => True

/-- The persisted entries are one chain under the key, the last is pinned, and the in-memory head is
that of some entry, the last or an earlier one. -/
structure Sound (K : Crates) (key : Key) (s : AppState) : Prop where
  linked : Linked K none s.store.auditEntries
  room : s.store.auditEntries.length ≤ 2 ^ 63
  tagged : ∀ e ∈ s.store.auditEntries, TagOk K key e
  pins : Pins K key s.store.auditEntries s.store.pinnedHead
  memory : ∀ h, s.auditLog.head = some h → ∃ e ∈ s.store.auditEntries,
    e.seq = s.auditLog.headSeq ∧ e.currentHash = h

variable {key : Key} {s s' : AppState}

theorem Sound.seq_toNat (h : Sound K key s) (i : ℕ) (hi : i < s.store.auditEntries.length) :
    s.store.auditEntries[i].seq.toNat = i :=
  h.linked.seq_toNat (lt_of_le_of_lt h.room (by norm_num)) i hi

theorem Sound.tables (h : Sound K key s) : Tables s := by
  have hlen : s.store.auditEntries.length < 2 ^ 64 := lt_of_le_of_lt h.room (by norm_num)
  refine ⟨seqs_nodup h.linked hlen, ?_, ?_, ?_⟩
  · intro e he
    obtain ⟨i, hi, rfl⟩ := List.getElem_of_mem he
    have hroom := h.room
    rw [h.seq_toNat i hi]
    omega
  · rw [h.pins, Option.map_map]
    rfl
  · intro hsome
    obtain ⟨hash, hhash⟩ := Option.isSome_iff_exists.mp hsome
    obtain ⟨e, he, hseq, -⟩ := h.memory hash hhash
    exact ⟨e, he, hseq⟩

/-- An append that meets no stored number went on from the last entry. -/
theorem Sound.atTip (h : Sound K key s) {params : AppendParams} {draw : Draw} {k : Key}
    {log : AuditLog} {e : AuditEntry} {head : PinnedHead}
    (ha : Appended K s.auditLog params draw k log e head)
    (hfresh : ∀ f ∈ s.store.auditEntries, f.seq ≠ e.seq) :
    AtTip s.auditLog (tipAfter none s.store.auditEntries) := by
  have hseq := ha.seq
  rcases List.eq_nil_or_concat' s.store.auditEntries with hes | ⟨fs, l, hes⟩
  · have hnone : s.auditLog.head = none := by
      by_contra hsome
      obtain ⟨hash, hhash⟩ := Option.ne_none_iff_exists'.mp hsome
      obtain ⟨f, hf, -⟩ := h.memory hash hhash
      rw [hes] at hf
      exact List.not_mem_nil hf
    rw [hes]
    exact ⟨hnone, fun hsome => by simp [hnone] at hsome⟩
  have hlen : s.store.auditEntries.length = fs.length + 1 := by rw [hes]; simp
  cases hhead : s.auditLog.head with
  | none =>
    -- The number zero is that of the first entry.
    rw [hhead] at hseq
    have hpos : 0 < s.store.auditEntries.length := by omega
    exact absurd ((UInt64.toNat_inj.mp (h.seq_toNat 0 hpos)).trans hseq.symm)
      (hfresh _ (List.getElem_mem hpos))
  | some hash =>
    obtain ⟨f, hf, hfseq, hfhash⟩ := h.memory hash hhead
    obtain ⟨i, hi, rfl⟩ := List.getElem_of_mem hf
    rw [hhead] at hseq
    have hi' := h.seq_toNat i hi
    have hlast : i = fs.length := by
      by_contra hne
      have hnext : i + 1 < s.store.auditEntries.length := by omega
      have hi₁ := h.seq_toNat (i + 1) hnext
      refine hfresh _ (List.getElem_mem hnext) (UInt64.toNat_inj.mp ?_)
      have hroom := h.room
      rw [hi₁, hseq, ← hfseq, UInt64.toNat_add, hi']
      simp only [UInt64.reduceToNat]
      omega
    have hl : s.store.auditEntries[i] = l := by
      rw [List.getElem_of_eq hes hi]
      simp [hlast]
    rw [hes, tipAfter_concat]
    refine ⟨?_, fun _ => ?_⟩
    · rw [hhead, ← hfhash, hl]
      rfl
    · rw [← hfseq, hl]
      rfl

/-- What a commit that goes through appended. -/
theorem commit_appended {params : AppendParams} {k : Key} {draw : Draw} {fault : Option StorageError}
    (hx : auditCommitSection K params k draw fault s = (.ok (), s')) :
    ∃ e head, Appended K s.auditLog params draw k s'.auditLog e head := by
  unfold auditCommitSection at hx
  split at hx
  · cases hx
  · next log entry head happ =>
    obtain ⟨k', hk', ha⟩ := append_ok happ
    obtain rfl : k = k' := Option.some.inj ((keyOfSlice_toList k).symm.trans hk')
    split at hx
    · cases hx
    · obtain ⟨-, rfl⟩ := Prod.mk.inj hx
      exact ⟨entry, head, ha⟩

/-- A commit that fails leaves the in-memory head where it was. -/
theorem commit_failed {params : AppendParams} {k : Key} {draw : Draw} {fault : Option StorageError}
    {r : Except AppError Unit} (hx : auditCommitSection K params k draw fault s = (r, s'))
    (hr : r ≠ .ok ()) : ∀ h, s'.auditLog.head = some h →
      s.auditLog.head = some h ∧ s'.auditLog.headSeq = s.auditLog.headSeq := by
  unfold auditCommitSection at hx
  split at hx
  · obtain ⟨-, rfl⟩ := Prod.mk.inj hx
    exact fun h hh => ⟨hh, rfl⟩
  · split at hx
    · obtain ⟨-, rfl⟩ := Prod.mk.inj hx
      intro h hh
      cases hhead : s.auditLog.head with
      | none =>
        simp only [hhead] at hh
        cases hh
      | some hash =>
        simp only [hhead] at hh ⊢
        exact ⟨hh, rfl⟩
    · obtain ⟨rfl, -⟩ := Prod.mk.inj hx
      exact absurd rfl hr

/-- **One `audit_commit`** under the key extends the chain by one entry, or leaves the tables. -/
theorem Sound.commit (h : Sound K key s) {params : AppendParams} {draw : Draw}
    {fault : Option StorageError} {r : Except AppError Unit}
    (hx : auditCommitSection K params key draw fault s = (r, s')) :
    Sound K key s' ∧ s.store.auditEntries <+: s'.store.auditEntries := by
  rcases h.tables.commit hx with ⟨rfl, e, hc⟩ | ⟨hr, hstore, -⟩
  · obtain ⟨e', head, ha⟩ := commit_appended hx
    obtain rfl : e = e' := by
      have hlog := congrArg AuditLog.entries (hc.log.symm.trans ha.log_eq)
      exact List.singleton_inj.mp (List.append_cancel_left hlog)
    obtain ⟨hl, -⟩ := h.linked.append_writer (h.atTip ha hc.fresh) ha
    have hroom : s'.store.auditEntries.length ≤ 2 ^ 63 := by
      have hlen := hl.seq_toNat (by have := h.room; simp; omega) s.store.auditEntries.length
        (by simp)
      have hb := hc.bounded
      rw [List.getElem_concat_length rfl] at hlen
      rw [hc.entries, List.length_append, List.length_singleton]
      omega
    refine ⟨⟨?_, hroom, ?_, ?_, ?_⟩, ?_⟩
    · rw [hc.entries]
      exact hl
    · rw [hc.entries]
      intro f hf
      rcases List.mem_append.mp hf with hf | hf
      · exact h.tagged f hf
      · rw [List.mem_singleton.mp hf]
        exact hc.tag
    · rw [hc.entries, hc.pinned, Pins, List.getLast?_concat]
      rfl
    · rw [hc.log, hc.entries]
      intro hash hhash
      exact ⟨e, List.mem_append_right _ (List.mem_singleton.mpr rfl), rfl, Option.some.inj hhash⟩
    · rw [hc.entries]
      exact List.prefix_append _ _
  · refine ⟨⟨?_, ?_, ?_, ?_, ?_⟩, by rw [hstore]⟩
    all_goals rw [hstore]
    · exact h.linked
    · exact h.room
    · exact h.tagged
    · exact h.pins
    · intro hash hhash
      obtain ⟨hhead, hseq⟩ := commit_failed hx hr hash hhash
      rw [hseq]
      exact h.memory hash hhead

/-- Steps that append nothing and install nothing. -/
theorem Sound.of_eq (h : Sound K key s) (hes : s'.store.auditEntries = s.store.auditEntries)
    (hpin : s'.store.pinnedHead = s.store.pinnedHead) (hlog : s'.auditLog = s.auditLog) :
    Sound K key s' := by
  refine ⟨?_, ?_, ?_, ?_, ?_⟩
  · rw [hes]
    exact h.linked
  · rw [hes]
    exact h.room
  · rw [hes]
    exact h.tagged
  · rw [hes, hpin]
    exact h.pins
  · rw [hes, hlog]
    exact h.memory

/-- The pinned head is that of a stored entry. -/
def Names (es : List AuditEntry) (p : PinnedHead) : Prop :=
  ∃ e ∈ es, p.headHash = e.currentHash ∧ p.headSeq = e.seq ∧ p.headId = e.id

theorem Names.mono {es fs : List AuditEntry} {p : PinnedHead} (h : Names es p) (hsub : es <+: fs) :
    Names fs p := by
  obtain ⟨e, he, hp⟩ := h
  exact ⟨e, hsub.subset he, hp⟩

theorem Sound.names_pinned (h : Sound K key s) {p : PinnedHead} (hp : s.store.pinnedHead = some p) :
    Names s.store.auditEntries p := by
  obtain ⟨e, he, rfl⟩ := Option.map_eq_some_iff.mp (h.pins.symm.trans hp)
  exact ⟨e, List.mem_of_getLast? he, rfl, rfl, rfl⟩

/-- **A head that is installed** may be any that was pinned once. -/
theorem Sound.install (h : Sound K key s) {p : Option PinnedHead}
    (hp : ∀ q, p = some q → Names s.store.auditEntries q) :
    Sound K key { s with auditLog := restoreAuditChain p } := by
  refine ⟨h.linked, h.room, h.tagged, h.pins, ?_⟩
  intro hash hhash
  cases p with
  | none => cases hhash
  | some q =>
    obtain ⟨e, he, hqhash, hqseq, -⟩ := hp q rfl
    exact ⟨e, he, hqseq.symm, hqhash.symm.trans (Option.some.inj hhash)⟩

/-- **One step** under the key, whatever head it installs among those that were pinned. -/
theorem Sound.step (h : Sound K key s) {β : Type} {op : Op β} {r : β} (hx : exec K op s r s')
    (hkey : oneKeyOp key op r)
    (hinstall : ∀ p q, installs op = some p → p = some q → Names s.store.auditEntries q) :
    Sound K key s' ∧ s.store.auditEntries <+: s'.store.auditEntries := by
  cases op with
  | auditCommit params k =>
    obtain rfl : k = key := hkey
    obtain ⟨draw, fault, hx⟩ := hx
    exact h.commit hx
  | installHead p =>
    obtain rfl : s' = _ := hx
    exact ⟨h.install fun q hq => hinstall p q rfl hq, List.prefix_refl _⟩
  | write w =>
    obtain ⟨fault, hx⟩ := hx
    rcases writeSection_eq hx with ⟨-, store, hw, rfl⟩ | ⟨-, rfl⟩
    · obtain ⟨hes, hpin⟩ := Write.apply_audit hw
      exact ⟨h.of_eq hes hpin rfl, by rw [show ({ s with store := store } :
        AppState).store.auditEntries = s.store.auditEntries from hes]⟩
    · exact ⟨h, List.prefix_refl _⟩
  | identity o =>
    obtain ⟨-, rfl⟩ := Prod.mk.inj hx
    exact ⟨h.of_eq rfl rfl rfl, List.prefix_refl _⟩
  | readHmacKey =>
    obtain ⟨-, rfl⟩ := hx
    exact ⟨h, List.prefix_refl _⟩
  | writeHmacKey k =>
    obtain rfl : s' = _ := hx
    exact ⟨h.of_eq rfl rfl rfl, List.prefix_refl _⟩
  | query q =>
    obtain ⟨rfl, -⟩ := hx
    exact ⟨h, List.prefix_refl _⟩
  | newUuid =>
    obtain ⟨-, rfl⟩ := hx
    exact ⟨h.of_eq rfl rfl rfl, List.prefix_refl _⟩
  | registerUseToken k token =>
    obtain rfl : s' = _ := hx
    exact ⟨h.of_eq rfl rfl rfl, List.prefix_refl _⟩
  | consumeUseToken k handle =>
    obtain ⟨now, hx⟩ := hx
    rw [consumeUseTokenSection_eq hx]
    exact ⟨h.of_eq rfl rfl rfl, List.prefix_refl _⟩
  | port p =>
    obtain rfl : s' = _ := hx
    exact ⟨h, List.prefix_refl _⟩

theorem Sound.reboot (h : Sound K key s) : Sound K key (rebooted s) := by
  have hrestored := h.install (p := s.store.pinnedHead) fun q hq => h.names_pinned hq
  exact ⟨h.linked, h.room, h.tagged, h.pins, hrestored.memory⟩

/-- The baseline that a rebaseline stores at an entry. -/
def baselineAt (K : Crates) (key : Key) (e : AuditEntry) (reason : String) (now : Rfc3339Timestamp) :
    AuditBaseline :=
  storedBaseline ((AuditBaseline.new e.seq e.id e.currentHash (saturatingSucc e.seq) reason
    now).withMac K key)

/-- The pinned baseline stands at a stored entry, under the key. -/
def BaselineSound (K : Crates) (key : Key) (s : AuditState) : Prop :=
  ∀ b, s.baseline = some b → ∃ e ∈ s.app.store.auditEntries, ∃ reason now,
    b = baselineAt K key e reason now

theorem Sound.sorted (h : Sound K key s) :
    (s.store.auditEntries.mergeSort fun a b => a.seq ≤ b.seq) = s.store.auditEntries := by
  refine List.mergeSort_of_pairwise (List.pairwise_iff_getElem.mpr fun i j hi hj hij => ?_)
  rw [decide_eq_true_iff, UInt64.le_iff_toNat_le, h.seq_toNat i hi, h.seq_toNat j hj]
  omega

theorem fromPersisted_stored (es : List AuditEntry) :
    AuditLog.fromPersisted (es.map stored) = storedLog (AuditLog.fromPersisted es) := by
  unfold AuditLog.fromPersisted storedLog
  rw [List.getLast?_map]
  cases es.getLast? with
  | none => rfl
  | some e => rfl

theorem Sound.authentic (h : Sound K key s) {p : PinnedHead} (hp : s.store.pinnedHead = some p) :
    Authentic K key s.store.auditEntries p := by
  have hlen : s.store.auditEntries.length < 2 ^ 64 := lt_of_le_of_lt h.room (by norm_num)
  have hlinked := h.linked
  have hpins := h.pins
  rcases List.eq_nil_or_concat' s.store.auditEntries with hes | ⟨fs, e, hes⟩
  · rw [Pins, hes, hp] at hpins
    cases hpins
  rw [hes] at hlinked hlen
  rw [Pins, hes, List.getLast?_concat, hp] at hpins
  obtain rfl := Option.some.inj hpins
  refine ⟨h.linked, h.tagged, ?_⟩
  rw [hes, tipAfter_concat]
  refine ⟨?_, rfl, rfl⟩
  have hsat : saturatingSucc (pinEntry K key e).headSeq = e.seq + 1 :=
    saturatingSucc_last hlinked hlen
  rw [hsat]
  rfl

/-- At a number that leaves room for the count, a stored baseline keeps its MAC. -/
theorem baselineAt_eq {e : AuditEntry} {reason : String} {now : Rfc3339Timestamp}
    (h : e.seq.toNat + 1 < 2 ^ 63) : baselineAt K key e reason now =
      { (AuditBaseline.new e.seq e.id e.currentHash (saturatingSucc e.seq) reason now).withMac K key with
        createdAt := now.atMicros } := by
  have hne : e.seq ≠ UInt64.ofNat (2 ^ 64 - 1) := by
    intro heq
    have hmax : e.seq.toNat = 2 ^ 64 - 1 := by
      rw [heq]
      rfl
    omega
  have hsucc : (saturatingSucc e.seq).toNat = e.seq.toNat + 1 := by
    rw [saturatingSucc, if_neg hne, UInt64.toNat_add]
    simp only [UInt64.reduceToNat]
    omega
  unfold baselineAt storedBaseline
  simp only [AuditBaseline.withMac, AuditBaseline.new]
  rw [saturateI64_of_lt (by omega), saturateI64_of_lt (by omega)]

/-- **What one snapshot verifies as.** -/
theorem Sound.verifies {R : Readers} (hR : R.Lawful K) {s : AuditState} (h : Sound K key s.app)
    (hb : BaselineSound K key s) (hlen : s.app.store.auditEntries.length < 2 ^ 63) {p : PinnedHead}
    (hp : (snapshotOf s).pinnedHead = some p) (now : Rfc3339Timestamp) :
    (verifySnapshot K (snapshotOf s) p key now).outcome = .intact := by
  obtain ⟨q, hq, rfl⟩ := Option.map_eq_some_iff.mp hp
  have ha := h.authentic hq
  have hlog : AuditLog.fromPersisted (snapshotOf s).entries =
      storedLog (AuditLog.fromPersisted s.app.store.auditEntries) := by
    rw [snapshotOf, h.sorted, fromPersisted_stored]
  unfold verifySnapshot
  simp only [hlog]
  split
  · next b hbase =>
    obtain ⟨e, he, reason, now', rfl⟩ := hb b hbase
    obtain ⟨i, hi, rfl⟩ := List.getElem_of_mem he
    have hseq := h.seq_toNat i hi
    rw [baselineAt_eq (by omega), verifyFromBaseline_stored hR]
    refine (verifyFromBaseline_of_evidence now (lt_of_lt_of_le hlen (by norm_num)) ?_).1
    refine evidence_of_authentic ha ?_ ⟨_, he, rfl, rfl⟩
    rw [AuditBaseline.verifyMac_iff]
    rfl
  · unfold verifyFull
    rw [verifyRange_stored hR]
    exact verifyFull_intact_iff.mpr ha

/-! ### What a client has seen -/

/-- The heads that a client read, and how many entries its last snapshot had. -/
structure Seen where
  heads : List PinnedHead
  rows : ℕ

/-- Heads are installed as they were read, and baselines stand at one. -/
def seenAllowed (K : Crates) (key : Key) {β : Type} (m : Seen) : CheckOp β → Prop
  | .audit (.app (.installHead (some p))) => p ∈ m.heads
  | .audit (.setAuditBaseline b) => ∃ p ∈ m.heads, ∃ reason now,
      b = (AuditBaseline.new p.headSeq p.headId p.headHash (saturatingSucc p.headSeq) reason
        now).withMac K key
  | _ => True

/-- What a client reads is what a sound chain had. -/
def seenExpects (K : Crates) (key : Key) {β : Type} : CheckOp β → β → Prop
  | .audit (.app op), r => oneKeyOp key op r
  | .auditSnapshot, r => ∀ snapshot, r = .ok snapshot → ∃ s, Sound K key s.app ∧
      BaselineSound K key s ∧ snapshot = snapshotOf s
  | _, _ => True

/-- What an answer tells a client. -/
def seenNext {β : Type} (m : Seen) : CheckOp β → β → Seen
  | .audit (.app (.query .pinnedHead)), .ok (some p) => { m with heads := p :: m.heads }
  | .auditSnapshot, .ok snapshot => { m with rows := snapshot.entries.length }
  | _, _ => m

/-- What a client has read of the chain. -/
def seen (K : Crates) (key : Key) : Monitor CheckOp Seen where
  init := ⟨[], 0⟩
  allowed := seenAllowed K key
  expects _ op r := seenExpects K key op r
  next := seenNext

/-- A verification found the chain intact, unless its snapshot was full. -/
def FoundIntact (K : Crates) (m : Seen) : Except AppError CheckReply → Prop
  | .ok (.verified result) =>
    (∃ R : Readers, R.Lawful K) → m.rows < 2 ^ 63 → result.outcome = .intact
  | _ => True

/-- What was seen is still in the store. -/
structure Recalled (K : Crates) (key : Key) (s : AuditState) (ms : List Seen) : Prop where
  sound : Sound K key s.app
  baseline : BaselineSound K key s
  heads : ∀ m ∈ ms, ∀ p ∈ m.heads, Names s.app.store.auditEntries p
  rows : ∀ m ∈ ms, m.rows ≤ s.app.store.auditEntries.length

section Clients

variable {m : Seen}

/-- The rules of `seen` for the actions of the context. -/
abbrev seenRules (K : Crates) (key : Key) : Rules Op Seen :=
  ((seen K key).rules.pull CheckOp.audit).pull BaselineOp.app

theorem yields_seen_call {β : Type} {op : Op β} (h : ordinary op) :
    Yields (seenRules K key) (call op : Handler β) m fun _ r => oneKeyOp key op r := by
  refine yields_call ?_ fun r m' hr => hr.1
  cases op <;> trivial

/-- The programs of the context that install no head. -/
theorem yields_ordinary {α : Type} {x : Handler α} (h : Only ordinary x.run) :
    Yields (seenRules K key) x m fun _ _ => True := by
  refine (wp_of_only (A := ordinary) (I := fun _ => True) ?_ (fun _ _ _ => trivial) h trivial).mono
    fun _ _ _ _ _ => trivial
  intro β m op hop _
  cases op <;> trivial

theorem only_ordinary_requireUnsealed : Only ordinary requireUnsealed.run := by
  refine only_except_bind (only_call trivial) fun b => ?_
  cases b with
  | true => exact only_pure ()
  | false => exact only_throw _

theorem only_ordinary_auditSeal (key : Option Key) : Only ordinary (auditSeal key).run := by
  cases key with
  | none => exact only_pure ()
  | some key =>
    refine only_except_bind (only_except_bind (only_call trivial) fun _ => only_pure _) fun ns => ?_
    exact only_except_bind (only_resultOf (only_attempt trivial)) fun _ => only_pure ()

/-- The pinned head that a client reads is among those it has seen. -/
theorem yields_seen_head : Yields (seenRules K key) (query .pinnedHead) m fun m' r =>
    ∀ p, r = some p → p ∈ m'.heads := by
  refine yields_attempt trivial fun r m' hr p hp => ?_
  obtain ⟨-, rfl⟩ := hr
  subst hp
  exact List.mem_cons_self

theorem seal_yields : Yields (seenRules K key) sealVaultExecute m fun _ _ => True := by
  refine yields_bind (yields_ordinary only_ordinary_requireUnsealed) fun m _ _ => ?_
  refine yields_bind (yields_seen_call trivial) fun m k _ => ?_
  refine yields_bind (yields_ordinary (only_ordinary_auditSeal k)) fun m _ _ => ?_
  refine yields_bind (yields_seen_call trivial) fun m _ _ => ?_
  refine yields_bind yields_seen_head fun m pinned hpinned => ?_
  refine yields_bind (P := fun _ _ => True) (yields_call ?_ fun _ _ _ => trivial) fun m _ _ => ?_
  · cases pinned with
    | none => trivial
    | some p => exact hpinned p rfl
  refine yields_bind (P := fun _ _ => True) (yields_attempt trivial fun _ _ _ => trivial)
    fun m _ _ => ?_
  exact yields_pure trivial

theorem requireHmacKey_seen : Yields (seenRules K key) requireHmacKey m fun _ k => k = key := by
  refine yields_bind (yields_seen_call trivial) fun m k hk => ?_
  exact yields_orThrow fun k' hk' => hk k' hk'

theorem rebaseline_yields (cmd : SetAuditBaselineCommand) :
    Yields ((seen K key).rules.pull CheckOp.audit) (cmd.execute K) m fun _ _ => True := by
  unfold SetAuditBaselineCommand.execute
  split_ifs
  · exact yields_throw _
  refine yields_bind (yields_embedded (yields_ordinary only_ordinary_requireUnsealed))
    fun m _ _ => ?_
  refine yields_bind (yields_embedded requireHmacKey_seen) fun m k hk => ?_
  obtain rfl := hk
  refine yields_bind (P := fun _ _ => True) (yields_embedded (yields_ordinary
    (only_except_bind (only_call trivial) fun _ => only_pure _))) fun m ns _ => ?_
  refine yields_bind (P := fun _ _ => True)
    (yields_embedded (yields_ordinary (only_attempt trivial))) fun m _ _ => ?_
  refine yields_bind (yields_embedded yields_seen_head) fun m pinned hpinned => ?_
  refine yields_bind (P := fun m' head => m' = m ∧ pinned = some head)
    (yields_orThrow fun head hhead => ⟨rfl, hhead⟩) ?_
  rintro _ head ⟨rfl, rfl⟩
  refine yields_bind (P := fun m' _ => head ∈ m'.heads) (yields_call trivial fun now m' hr => ?_) ?_
  · obtain ⟨-, rfl⟩ := hr
    exact hpinned head rfl
  intro m now hmem
  refine yields_bind (P := fun _ _ => True) (yields_attempt ?_ fun _ _ _ => trivial) fun m _ _ =>
    yields_pure trivial
  exact ⟨head, hmem, cmd.reason, now, rfl⟩

theorem verify_yields : Yields (seen K key).rules (verifyChainExecute K) m fun m' reply =>
    FoundIntact K m' (.ok reply) := by
  refine yields_bind (yields_embedded (yields_embedded
    (yields_ordinary only_ordinary_requireUnsealed))) fun m _ _ => ?_
  refine yields_bind (yields_embedded (yields_embedded requireHmacKey_seen)) fun m k hk => ?_
  obtain rfl := hk
  refine yields_bind (P := fun m' snapshot => (∃ s, Sound K k s.app ∧ BaselineSound K k s ∧
    snapshot = snapshotOf s) ∧ m'.rows = snapshot.entries.length)
    (yields_attempt trivial fun snapshot m' hr => ?_) ?_
  · obtain ⟨hsound, rfl⟩ := hr
    exact ⟨hsound snapshot rfl, rfl⟩
  rintro m _ ⟨⟨s, hs, hb, rfl⟩, hrows⟩
  refine yields_bind (P := fun m' p => m' = m ∧ (snapshotOf s).pinnedHead = some p)
    (yields_orThrow fun p hp => ⟨rfl, hp⟩) ?_
  intro m₁ p hm₁
  obtain ⟨rfl, hp⟩ := hm₁
  refine yields_bind (P := fun m' _ => m' = m₁) (yields_call trivial fun now m' hr => hr.2.symm) ?_
  intro m₂ now hm₂
  obtain rfl := hm₂
  refine yields_pure ?_
  rintro ⟨R, hR⟩ hroom
  have hlen : (snapshotOf s).entries.length = s.app.store.auditEntries.length := by
    rw [snapshotOf, hs.sorted, List.length_map]
  exact hs.verifies hR hb (by omega) hp now

theorem client_conforms {p : Prog CheckOp (Except AppError CheckReply)} (hp : CheckClient K p) :
    Conforms (seen K key) p (seen K key).init (FoundIntact K) := by
  have hfound : ∀ (x : CheckHandler CheckReply) (Q : Seen → CheckReply → Prop),
      Yields (seen K key).rules x (seen K key).init Q →
      (∀ m reply, Q m reply → FoundIntact K m (.ok reply)) →
      Conforms (seen K key) x.run (seen K key).init (FoundIntact K) := by
    intro x Q hx hQ
    refine Wp.mono ?_ hx
    intro m r hr
    cases r with
    | ok reply => exact hQ m reply (hr reply rfl)
    | error e => trivial
  cases hp with
  | verify => exact hfound _ _ verify_yields fun _ _ h => h
  | sealing =>
    refine hfound _ (fun _ reply => ∃ r, reply = .app r) (yields_bind
      (yields_embedded (yields_embedded seal_yields)) fun _ r _ => yields_pure ⟨r, rfl⟩) ?_
    rintro m _ ⟨r, rfl⟩
    trivial
  | rebaseline cmd =>
    refine hfound _ (fun _ reply => ∃ r, reply = .rebaselined r) (yields_bind
      (yields_embedded (rebaseline_yields cmd)) fun _ r _ => yields_pure ⟨r, rfl⟩) ?_
    rintro m _ ⟨r, rfl⟩
    trivial
  | other x h =>
    refine hfound _ (fun _ reply => ∃ r, reply = .app r) (yields_bind
      (yields_embedded (yields_embedded (yields_ordinary h))) fun _ r _ => yields_pure ⟨r, rfl⟩) ?_
    rintro m _ ⟨r, rfl⟩
    trivial

end Clients

/-! ### Along a run -/

theorem baselineSound_of_prefix {s s' : AuditState} (h : BaselineSound K key s)
    (hsub : s.app.store.auditEntries <+: s'.app.store.auditEntries) (hb : s'.baseline = s.baseline) :
    BaselineSound K key s' := by
  intro b hs'
  obtain ⟨e, he, hat⟩ := h b (hb.symm.trans hs')
  exact ⟨e, hsub.subset he, hat⟩

/-- What a client expects of an answer, the system gives. -/
theorem Recalled.expects {s s' : AuditState} {ms : List Seen} (h : Recalled K key s ms) {β : Type}
    {op : CheckOp β} {r : β} (hx : checkExec K op s r s') (hkey : oneKeyCheck key op r) :
    seenExpects K key op r := by
  cases op with
  | auditSnapshot =>
    obtain ⟨-, fault, rfl⟩ := hx
    intro snapshot hok
    exact ⟨s, h.sound, h.baseline, (Except.ok.inj (faulty_ok hok).2).symm⟩
  | audit op =>
    cases op with
    | app op => exact hkey
    | setAuditBaseline b => trivial

/-- **One step** leaves the chain and the baseline sound, and extends the entries. -/
theorem Recalled.step {s s' : AuditState} {ms : List Seen} (h : Recalled K key s ms) {β : Type}
    {op : CheckOp β} {r : β} {m : Seen} (hm : m ∈ ms) (ha : seenAllowed K key m op)
    (hx : checkExec K op s r s') (hkey : oneKeyCheck key op r) :
    Sound K key s'.app ∧ BaselineSound K key s' ∧
      s.app.store.auditEntries <+: s'.app.store.auditEntries := by
  cases op with
  | auditSnapshot =>
    obtain ⟨rfl, -⟩ := hx
    exact ⟨h.sound, h.baseline, List.prefix_refl _⟩
  | audit op =>
    cases op with
    | app op =>
      obtain ⟨hx, hb⟩ := hx
      obtain ⟨hs, hsub⟩ := h.sound.step hx hkey fun p q hp hq => by
        cases op with
        | installHead pinned =>
          obtain rfl := Option.some.inj hp
          subst hq
          exact h.heads m hm q ha
        | _ => cases hp
      exact ⟨hs, baselineSound_of_prefix h.baseline hsub hb, hsub⟩
    | setAuditBaseline b =>
      rcases hx with ⟨-, rfl⟩ | ⟨rfl, -⟩
      · refine ⟨h.sound, ?_, List.prefix_refl _⟩
        intro b' hb'
        obtain rfl := Option.some.inj hb'
        obtain ⟨p, hp, reason, now, rfl⟩ := ha
        obtain ⟨e, he, hhash, hseq, hid⟩ := h.heads m hm p hp
        refine ⟨e, he, reason, now, ?_⟩
        rw [hhash, hseq, hid]
        rfl
      · exact ⟨h.sound, h.baseline, List.prefix_refl _⟩

/-- What a client has seen after a step is stored. -/
theorem Recalled.next {s s' : AuditState} {ms : List Seen} (h : Recalled K key s ms) {β : Type}
    {op : CheckOp β} {r : β} {m : Seen} (hm : m ∈ ms) (hx : checkExec K op s r s')
    (hsub : s.app.store.auditEntries <+: s'.app.store.auditEntries) :
    (∀ p ∈ (seenNext m op r).heads, Names s'.app.store.auditEntries p) ∧
      (seenNext m op r).rows ≤ s'.app.store.auditEntries.length := by
  have hheads : ∀ p ∈ m.heads, Names s'.app.store.auditEntries p :=
    fun p hp => (h.heads m hm p hp).mono hsub
  have hrows : m.rows ≤ s'.app.store.auditEntries.length := (h.rows m hm).trans hsub.length_le
  cases op with
  | auditSnapshot =>
    obtain ⟨rfl, fault, rfl⟩ := hx
    cases hr : faulty fault (.ok (snapshotOf s')) with
    | error e => exact ⟨hheads, hrows⟩
    | ok snapshot =>
      obtain rfl := Except.ok.inj (faulty_ok hr).2
      refine ⟨hheads, le_of_eq ?_⟩
      show (snapshotOf s').entries.length = _
      rw [snapshotOf, h.sound.sorted, List.length_map]
  | audit op =>
    cases op with
    | setAuditBaseline b => exact ⟨hheads, hrows⟩
    | app op =>
      cases op with
      | query q =>
        cases q with
        | pinnedHead =>
          obtain ⟨⟨-, fault, rfl⟩, -⟩ := hx
          cases hr : faulty fault (.ok (Query.pinnedHead.answer s.app.store)) with
          | error e => exact ⟨hheads, hrows⟩
          | ok pinned =>
            cases pinned with
            | none => exact ⟨hheads, hrows⟩
            | some p =>
              refine ⟨List.forall_mem_cons.mpr ⟨?_, hheads⟩, hrows⟩
              exact (h.sound.names_pinned (Except.ok.inj (faulty_ok hr).2)).mono hsub
        | _ => exact ⟨hheads, hrows⟩
      | _ => exact ⟨hheads, hrows⟩

section Reach

variable {s₀ : AuditState} {c : Config AuditState CheckOp (Except AppError CheckReply)}

end Reach

/-! ### A verification among a rebaseline, a seal and an append -/

/-- One more entry on a chain whose tables are in order. -/
structure Extended (params : AppendParams) (draw : Draw) (ids : List AuditEntryId) (s s' : AppState)
    (e : AuditEntry) : Prop where
  ran : auditCommitSection chainCrates params sampleKey draw none s = (.ok (), s')
  counted : Counted (draw.id :: ids) s'
  tables : Tables s'
  entries : s'.store.auditEntries = s.store.auditEntries ++ [e]
  pinned : s'.store.pinnedHead = some (pinEntry chainCrates sampleKey e)
  identity : s'.identity = s.identity
  hmacKey : s'.hmacKey = s.hmacKey
  issued : s'.issued = s.issued

theorem exists_extended {ids : List AuditEntryId} {s : AppState} (hc : Counted ids s) (ht : Tables s)
    (hfew : ids.length < 255) (params : AppendParams) (draw : Draw) (hid : draw.id ∉ ids) :
    ∃ s' e, Extended params draw ids s s' e := by
  obtain ⟨s', hx, hc', hsame⟩ := hc.commit hfew params sampleKey draw hid
  rcases ht.commit hx with ⟨-, e, hcommitted⟩ | ⟨hr, -⟩
  · refine ⟨s', e, hx, hc', hcommitted.tables ht, hcommitted.entries, hcommitted.pinned, ?_, ?_, ?_⟩ <;>
      rw [hsame]
  · exact absurd rfl hr

/-- The head that a read finds after the entry. -/
theorem Extended.head {params : AppendParams} {draw : Draw} {ids : List AuditEntryId} {s s' : AppState}
    {e : AuditEntry} (h : Extended params draw ids s s' e) :
    exec chainCrates (.query .pinnedHead) s' (.ok (some (pinEntry chainCrates sampleKey e))) s' := by
  refine ⟨rfl, none, ?_⟩
  rw [← h.pinned]
  rfl

/-- An entry after it, when the entries and the log are still the same. -/
theorem Extended.next {params : AppendParams} {draw : Draw} {ids : List AuditEntryId}
    {s s₁ s' : AppState} {e : AuditEntry} (h : Extended params draw ids s s₁ e)
    (hstore : s'.store = s₁.store) (hlog : s'.auditLog = s₁.auditLog) (hfew : ids.length < 254)
    (params' : AppendParams) (draw' : Draw) (hid : draw'.id ∉ draw.id :: ids) :
    ∃ s'' f, Extended params' draw' (draw.id :: ids) s' s'' f := by
  obtain ⟨hrows, hhead, hseq⟩ := h.counted
  obtain ⟨hseqs, hbounded, hpinned, hmemory⟩ := h.tables
  refine exists_extended ⟨?_, ?_, ?_⟩ ⟨?_, ?_, ?_, ?_⟩ (by simpa using Nat.succ_lt_succ hfew) params'
    draw' hid
  all_goals first | rwa [hstore] | rwa [hlog] | rwa [hstore, hlog]

end MerkleVault.App.ChainVerification
