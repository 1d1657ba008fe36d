import MerkleVault.App.Lifecycle
import MerkleVault.Audit.Integrity

/-! # Durability of the Audit Log

`audit_commit` appends, persists and rolls back under one guard, so it keeps the in-memory head on
the persisted one.  A seal reads the pinned head before it takes the guard: between the two another
client may commit, and the seal then installs a head that is no longer the persisted one.

* `durable_of_reachable`: without that, the log is durable in every interleaving;
* `stale_seal_breaks_durability`: with it, it is not. -/

namespace MerkleVault.App.AuditDurability

open MerkleVault.Types MerkleVault.External MerkleVault.Lib.Program MerkleVault.Identity
open MerkleVault.Audit.Entry MerkleVault.Audit.Writer MerkleVault.Audit.Chain
open MerkleVault.Audit.Integrity
open MerkleVault.Sqlite.Tables MerkleVault.App.Context MerkleVault.App.Lifecycle

/-! ### The property -/

/-- Head hash and sequence number, those of the empty log when nothing is pinned. -/
def headOf : Option PinnedHead → Option Blake3Hash × UInt64
  | none => (none, 0)
  | some p => (some p.headHash, p.headSeq)

/-- The persisted entries are one chain with numbers `0..n-1`, the pinned head is that of the last,
and the in-memory head is the pinned one, so that the next append goes on from it. -/
structure Durable (K : Crates) (s : AppState) : Prop where
  seqs : ∀ i (hi : i < s.store.auditEntries.length), s.store.auditEntries[i].seq.toNat = i
  chained : Linked K none s.store.auditEntries
  pinned : s.store.pinnedHead.map (fun p => (p.headHash, p.headSeq, p.headId)) =
    s.store.auditEntries.getLast?.map fun e => (e.currentHash, e.seq, e.id)
  inMemory : (s.auditLog.head, s.auditLog.headSeq) = headOf s.store.pinnedHead
  nextAppend : ∀ params key draw log e h, append K s.auditLog params key draw = .ok (log, e, h) →
    e.seq.toNat = s.store.auditEntries.length ∧
      e.prevHash = s.store.auditEntries.getLast?.map (·.currentHash)

/-! ### The invariant -/

/-- What every step keeps: sequence numbers are stored as `i64`, so at most `2 ^ 63` entries fit. -/
structure ChainInv (K : Crates) (s : AppState) : Prop where
  chained : Linked K none s.store.auditEntries
  room : s.store.auditEntries.length ≤ 2 ^ 63
  pinned : s.store.pinnedHead.map (fun p => (p.headHash, p.headSeq, p.headId)) =
    s.store.auditEntries.getLast?.map fun e => (e.currentHash, e.seq, e.id)
  inMemory : (s.auditLog.head, s.auditLog.headSeq) = headOf s.store.pinnedHead

variable {K : Crates}

theorem tip_eq_getLast? (es : List AuditEntry) :
    tipAfter none es = es.getLast?.map fun e => (e.currentHash, e.seq) := by
  rcases List.eq_nil_or_concat' es with rfl | ⟨es', e, rfl⟩
  · rfl
  · rw [tipAfter_concat, List.getLast?_concat]
    rfl

theorem tip_seq {es : List AuditEntry} (hl : Linked K none es) (hlen : es.length < 2 ^ 64) :
    (tipAfter none es).seq.toNat = es.length := by
  rcases List.eq_nil_or_concat' es with rfl | ⟨es', e, rfl⟩
  · rfl
  · have hlast : e.seq.toNat = es'.length := by
      have h := hl.seq_toNat hlen es'.length (by simp)
      simpa using h
    have hlen' : es'.length + 1 < 2 ^ 64 := by simpa using hlen
    rw [tipAfter_concat]
    show (e.seq + 1).toNat = _
    rw [UInt64.toNat_add, hlast, List.length_append]
    exact Nat.mod_eq_of_lt hlen'

/-- The in-memory head stands at the tip of the persisted chain. -/
theorem ChainInv.atTip {s : AppState} (h : ChainInv K s) :
    AtTip s.auditLog (tipAfter none s.store.auditEntries) := by
  have hp := h.pinned
  obtain ⟨hhead, hseq⟩ := Prod.mk.inj h.inMemory
  rw [tip_eq_getLast?]
  cases hpin : s.store.pinnedHead with
  | none =>
    rw [hpin] at hp hhead
    have hlast : s.store.auditEntries.getLast? = none := by simpa using hp.symm
    rw [hlast]
    refine ⟨hhead, ?_⟩
    rw [hhead]
    simp
  | some p =>
    rw [hpin] at hp hhead hseq
    cases hlast : s.store.auditEntries.getLast? with
    | none =>
      rw [hlast] at hp
      cases hp
    | some e =>
      rw [hlast] at hp
      simp only [Option.map_some, Option.some.injEq, Prod.mk.injEq] at hp
      obtain ⟨hh, hs, -⟩ := hp
      refine ⟨hhead.trans (congrArg some hh), fun _ => ?_⟩
      rw [hseq.trans hs]
      rfl

theorem ChainInv.of_eq {s s' : AppState} (h : ChainInv K s) (hlog : s'.auditLog = s.auditLog)
    (hes : s'.store.auditEntries = s.store.auditEntries)
    (hpin : s'.store.pinnedHead = s.store.pinnedHead) : ChainInv K s' := by
  refine ⟨?_, ?_, ?_, ?_⟩
  · rw [hes]
    exact h.chained
  · rw [hes]
    exact h.room
  · rw [hes, hpin]
    exact h.pinned
  · rw [hlog, hpin]
    exact h.inMemory

theorem headOf_restored (p : Option PinnedHead) :
    ((restoreAuditChain p).head, (restoreAuditChain p).headSeq) = headOf p := by
  cases p with
  | none => rfl
  | some p => rfl

theorem rebuildLog_head (log : AuditLog) (p : Option PinnedHead)
    (h : (log.head, log.headSeq) = headOf p) :
    ((rebuildLog log.head log.headSeq).head, (rebuildLog log.head log.headSeq).headSeq) =
      headOf p := by
  obtain ⟨h₁, h₂⟩ := Prod.mk.inj h
  rw [h₁, h₂]
  cases p with
  | none => rfl
  | some p => rfl

/-- Installing the pinned head that is persisted now keeps the invariant. -/
theorem ChainInv.install {s : AppState} (h : ChainInv K s) :
    ChainInv K { s with auditLog := restoreAuditChain s.store.pinnedHead } :=
  ⟨h.chained, h.room, h.pinned, headOf_restored _⟩

theorem ChainInv.reboot {s : AppState} (h : ChainInv K s) : ChainInv K (rebooted s) :=
  ⟨h.chained, h.room, h.pinned, headOf_restored _⟩

/-- A commit that goes through has room for its sequence number: past `2 ^ 63` entries the number
saturates and meets a stored one. -/
theorem commitAuditEntry_ok {st st' : Store} {e : AuditEntry} {head : PinnedHead}
    (hl : Linked K none st.auditEntries) (hroom : st.auditEntries.length ≤ 2 ^ 63)
    (hseq : e.seq.toNat = st.auditEntries.length) (hhead : head.headSeq = e.seq)
    (h : st.commitAuditEntry e head = .ok st') :
    st.auditEntries.length < 2 ^ 63 ∧
      st' = { st with auditEntries := st.auditEntries ++ [e], pinnedHead := some head } := by
  have hlt : st.auditEntries.length < 2 ^ 63 := by
    by_contra hge
    have hlen : st.auditEntries.length = 2 ^ 63 := by omega
    have hmem : st.auditEntries.any (fun r => r.seq = saturateI64 e.seq) = true := by
      have hi : 2 ^ 63 - 1 < st.auditEntries.length := by omega
      have hs := hl.seq_toNat (by omega) (2 ^ 63 - 1) hi
      refine List.any_eq_true.mpr ⟨_, List.getElem_mem hi, ?_⟩
      have hsat : saturateI64 e.seq = UInt64.ofNat (2 ^ 63 - 1) := by
        rw [saturateI64, if_neg (by omega)]
      rw [decide_eq_true_iff, hsat]
      exact UInt64.toNat_inj.mp (by rw [hs]; rfl)
    unfold Store.commitAuditEntry at h
    simp only [hmem, if_true] at h
    split_ifs at h
  refine ⟨hlt, ?_⟩
  have hsat : saturateI64 e.seq = e.seq := by rw [saturateI64, if_pos (by omega)]
  obtain ⟨headHash, headSeq, headId, updatedAt, hmacHead⟩ := head
  obtain rfl : headSeq = e.seq := hhead
  unfold Store.commitAuditEntry at h
  simp only [hsat] at h
  split_ifs at h
  exact (Except.ok.inj h).symm

/-- **One `audit_commit`**, whether it goes through or not, keeps the invariant. -/
theorem ChainInv.auditCommit {s s' : AppState} (h : ChainInv K s) {params : AppendParams}
    {key : Key} {draw : Draw} {fault : Option StorageError} {r : Except AppError Unit}
    (hx : auditCommitSection K params key draw fault s = (r, s')) : ChainInv K s' := by
  unfold auditCommitSection at hx
  split at hx
  · obtain ⟨-, rfl⟩ := Prod.mk.inj hx
    exact h
  · next log entry pinned happ =>
    obtain ⟨k, -, ha⟩ := append_ok happ
    split at hx
    · obtain ⟨-, rfl⟩ := Prod.mk.inj hx
      exact ⟨h.chained, h.room, h.pinned, rebuildLog_head _ _ h.inMemory⟩
    · next store hstore =>
      obtain ⟨-, rfl⟩ := Prod.mk.inj hx
      have hf := follows_of_appended ha h.atTip
      have hseq : entry.seq.toNat = s.store.auditEntries.length := by
        rw [hf.seq]
        exact tip_seq h.chained (lt_of_le_of_lt h.room (by norm_num))
      have hpin := ha.pinned_eq
      obtain ⟨hlt, rfl⟩ := commitAuditEntry_ok h.chained h.room hseq (by rw [hpin]; rfl)
        (faulty_ok hstore).2
      refine ⟨(h.chained.append_writer h.atTip ha).1, ?_, ?_, ?_⟩
      · rw [List.length_append]
        exact hlt
      · rw [List.getLast?_concat, hpin]
        rfl
      · rw [ha.log_eq, hpin]
        rfl

/-! ### Runs -/

/-- The head that an action installs. -/
def installs {β : Type} : Op β → Option (Option PinnedHead)
  | .installHead p => some p
  | _ => none

/-- The pinned head that a seal installs is the persisted one: nothing was committed since it was
read. -/
def installsPersisted : Guard AppState Op := fun _ s e =>
  ∀ p, installs e.op = some p → p = s.store.pinnedHead

theorem ChainInv.step {β : Type} {op : Op β} {s s' : AppState} {r : β} (h : ChainInv K s)
    (hx : exec K op s r s') (hg : ∀ p, installs op = some p → p = s.store.pinnedHead) :
    ChainInv K s' := by
  cases op with
  | identity o =>
    obtain ⟨-, rfl⟩ := Prod.mk.inj hx
    exact h.of_eq rfl rfl rfl
  | readHmacKey =>
    obtain ⟨-, rfl⟩ := hx
    exact h
  | writeHmacKey key =>
    obtain rfl : s' = _ := hx
    exact h.of_eq rfl rfl rfl
  | auditCommit params key =>
    obtain ⟨draw, fault, hx⟩ := hx
    exact h.auditCommit hx
  | installHead p =>
    obtain rfl : s' = _ := hx
    rw [hg p rfl]
    exact h.install
  | query q =>
    obtain ⟨rfl, -⟩ := hx
    exact h
  | write w =>
    obtain ⟨fault, hx⟩ := hx
    rcases writeSection_eq hx with ⟨-, store, hw, rfl⟩ | ⟨-, rfl⟩
    · obtain ⟨hes, hpin⟩ := Write.apply_audit hw
      exact h.of_eq rfl hes hpin
    · exact h
  | newUuid =>
    obtain ⟨-, rfl⟩ := hx
    exact h.of_eq rfl rfl rfl
  | registerUseToken key token =>
    obtain rfl : s' = _ := hx
    exact h.of_eq rfl rfl rfl
  | consumeUseToken key handle =>
    obtain ⟨now, hx⟩ := hx
    rw [consumeUseTokenSection_eq hx]
    exact h.of_eq rfl rfl rfl
  | port p =>
    obtain rfl : s' = _ := hx
    exact h

theorem ChainInv.durable {s : AppState} (h : ChainInv K s) : Durable K s := by
  have hlen : s.store.auditEntries.length < 2 ^ 64 := lt_of_le_of_lt h.room (by norm_num)
  refine ⟨h.chained.seq_toNat hlen, h.chained, h.pinned, h.inMemory, ?_⟩
  intro params key draw log e head happ
  obtain ⟨k, -, ha⟩ := append_ok happ
  have hf := follows_of_appended ha h.atTip
  refine ⟨?_, ?_⟩
  · rw [hf.seq]
    exact tip_seq h.chained hlen
  · rw [hf.prevHash, tip_eq_getLast?, Tip.hash, Option.map_map]
    rfl

/-- Nothing persisted and nothing in memory. -/
structure Blank (s : AppState) : Prop where
  entries : s.store.auditEntries = []
  pinned : s.store.pinnedHead = none
  log : s.auditLog = AuditLog.new

theorem Blank.inv {s : AppState} (h : Blank s) : ChainInv K s := by
  refine ⟨?_, ?_, ?_, ?_⟩
  · rw [h.entries]
    trivial
  · rw [h.entries]
    norm_num
  · rw [h.entries, h.pinned]
    rfl
  · rw [h.log, h.pinned]
    rfl

/-- One call of `audit_commit`, and a seal. -/
inductive AuditClient : Prog Op (Except AppError Reply) → Prop
  | commit (params : AppendParams) (key : Key) :
      AuditClient (do auditCommit params key; return .audited : Handler Reply).run
  | seal : AuditClient sealVaultExecute.run

/-- **Durability under concurrency.**  In every run of commits, seals and restarts where no seal
installs a head that is not the persisted one, the log is durable in every state. -/
theorem durable_of_reachable (s₀ : AppState) (h₀ : Blank s₀)
    (c : Config AppState Op (Except AppError Reply))
    (h : Reachable (agentSystem K AuditClient) installsPersisted s₀ c) : Durable K c.state := by
  refine ChainInv.durable (h.inv (ChainInv K) h₀.inv ?_ ?_)
  · intro β op hist s s' r hI hx hg
    exact hI.step hx hg
  · rintro s _ hI rfl
    exact hI.reboot

/-! ### Runs on a blank log -/

/-- The first commit goes through when storage works. -/
theorem first_commit (K : Crates) (params : AppendParams) (key : Key) (draw : Draw) (s : AppState)
    (hes : s.store.auditEntries = []) : ∃ s', auditCommitSection K params key draw none s =
      (.ok (), s') ∧ s'.store.pinnedHead.isSome = true := by
  obtain ⟨log, e, h, happ⟩ := exists_append K s.auditLog params key draw
  unfold auditCommitSection
  rw [happ]
  simp [faulty, Store.commitAuditEntry, hes]

/-- The entries are those with the identifiers, numbered from zero, with hashes that count up. -/
structure Counted (ids : List AuditEntryId) (s : AppState) : Prop where
  rows : ∀ r ∈ s.store.auditEntries, r.id ∈ ids ∧
    ∃ i < ids.length, r.seq = UInt64.ofNat i ∧ r.currentHash = countedHash (i + 1)
  head : s.auditLog.head = if ids = [] then none else some (countedHash ids.length)
  headSeq : s.auditLog.headSeq = UInt64.ofNat (ids.length - 1)

theorem counted_blank {s : AppState} (h : Blank s) : Counted [] s := by
  obtain ⟨hentries, -, hlog⟩ := h
  refine ⟨fun r hr => ?_, ?_, ?_⟩
  · rw [hentries] at hr
    cases hr
  · rw [hlog]
    rfl
  · rw [hlog]
    rfl

/-- One more commit under a new identifier, which changes the audit chain only. -/
theorem Counted.commit {ids : List AuditEntryId} {s : AppState} (h : Counted ids s)
    (hfew : ids.length < 255) (params : AppendParams) (key : Key) (draw : Draw) (hid : draw.id ∉ ids) :
    ∃ s', auditCommitSection chainCrates params key draw none s = (.ok (), s') ∧
      Counted (draw.id :: ids) s' ∧
      s' = { s with
        auditLog := s'.auditLog
        store := { s.store with
          auditEntries := s'.store.auditEntries, pinnedHead := s'.store.pinnedHead } } := by
  have hsmall : ∀ {i : ℕ}, i < 256 → (UInt64.ofNat i).toNat = i := fun hi =>
    UInt64.toNat_ofNat_of_lt' (by unfold UInt64.size; omega)
  obtain ⟨log, e, head, happ⟩ := exists_append chainCrates s.auditLog params key draw
  obtain ⟨_, hkey, ha⟩ := append_ok happ
  have hseq : e.seq = UInt64.ofNat ids.length := by
    rw [ha.seq, h.head, h.headSeq]
    cases ids with
    | nil => rfl
    | cons id ids =>
      simp only [List.cons_ne_nil, if_false, List.length_cons, Nat.add_sub_cancel]
      rw [UInt64.ofNat_add]
      rfl
  have hhash : e.currentHash = countedHash (ids.length + 1) := by
    obtain ⟨bs, hbs, hh⟩ := ha.hash_eq
    rw [← hh]
    refine chain_hash (e := e) ?_
    rw [h.head] at hbs
    cases ids with
    | nil => exact hbs
    | cons id ids => exact hbs
  have heid : e.id = draw.id := congrArg AuditEntry.id ha.part_eq
  have hrow : saturateI64 e.seq = e.seq := by
    refine if_pos ?_
    rw [hseq, hsmall (by omega)]
    omega
  let store : Store := { s.store with
    auditEntries := s.store.auditEntries ++ [e]
    pinnedHead := some { head with headSeq := saturateI64 head.headSeq } }
  have hstore : s.store.commitAuditEntry e head = .ok store := by
    unfold Store.commitAuditEntry
    simp only [hrow]
    have hno : ∀ f : AuditEntry → Bool, (∀ r ∈ s.store.auditEntries, f r = false) →
        ¬s.store.auditEntries.any f = true := fun f hf hany => by
      obtain ⟨r, hr, ht⟩ := List.any_eq_true.mp hany
      rw [hf r hr] at ht
      cases ht
    rw [if_neg (hno _ fun r hr => ?_), if_neg (hno _ fun r hr => ?_), if_neg (hno _ fun r hr => ?_)]
    · obtain ⟨-, i, hi, -, hr⟩ := h.rows r hr
      refine decide_eq_false fun heq => ?_
      have := countedHash_injective (by omega) (by omega) (hr.symm.trans (heq.trans hhash))
      omega
    · obtain ⟨-, i, hi, hr, -⟩ := h.rows r hr
      refine decide_eq_false fun heq => ?_
      have hnat := congrArg UInt64.toNat (hr.symm.trans (heq.trans hseq))
      rw [hsmall (by omega), hsmall (by omega)] at hnat
      omega
    · refine decide_eq_false fun heq => hid ?_
      rw [← heid, ← heq]
      exact (h.rows r hr).1
  refine ⟨{ s with auditLog := log, store := store }, ?_, ⟨fun r hr => ?_, ?_, ?_⟩, rfl⟩
  · unfold auditCommitSection
    rw [happ]
    simp only [faulty, hstore]
  · rcases List.mem_append.mp hr with hold | hnew
    · obtain ⟨hmem, i, hi, hr⟩ := h.rows r hold
      exact ⟨List.mem_cons_of_mem _ hmem, i, by rw [List.length_cons]; omega, hr⟩
    · rw [List.mem_singleton.mp hnew]
      exact ⟨by simp [heid], ids.length, by simp, hseq, hhash⟩
  · rw [ha.log_eq]
    simp [AuditLog.push, hhash]
  · rw [ha.log_eq]
    simp [AuditLog.push, hseq]

/-- An unsealed vault whose log is still empty. -/
def sampleState : AppState where
  identity := ⟨.unsealed, some sampleKey⟩
  hmacKey := some sampleKey
  auditLog := AuditLog.new
  useTokens := []
  store := Store.empty
  issued := []

/-- The entry of a put. -/
def sampleParams : AppendParams :=
  { op := .put, outcome := .allow, namespaceId := ⟨Vector.replicate 16 0⟩ }

theorem sampleState_blank : Blank sampleState := ⟨rfl, rfl, rfl⟩

theorem one_commit_durable : ∃ c : Config AppState Op (Except AppError Reply),
    c.state.store.pinnedHead.isSome = true ∧
    Reachable (agentSystem sampleCrates AuditClient) installsPersisted sampleState c ∧
    Durable sampleCrates c.state := by
  obtain ⟨s', hx, hp⟩ := first_commit sampleCrates sampleParams sampleKey (sampleCall 1).draw
    sampleState rfl
  have h₀ := Reachable.here (agentSystem sampleCrates AuditClient) installsPersisted sampleState
  have h₁ := h₀.start _ (.commit sampleParams sampleKey)
  have hr := h₁.act 0 rfl (.ok ()) s' ⟨_, _, hx⟩ (by simp [installsPersisted, installs])
  exact ⟨_, hp, hr, durable_of_reachable sampleState sampleState_blank _ hr⟩

/-- A seal whose own entry could not be written reads the pinned head, another client commits, and
the seal installs what it read: the in-memory head is behind the persisted one. -/
theorem stale_seal_breaks_durability : ∃ s₀ : AppState,
    ∃ c : Config AppState Op (Except AppError Reply), Blank s₀ ∧
      Reachable (agentSystem sampleCrates AuditClient) unguarded s₀ c ∧
      ¬ Durable sampleCrates c.state := by
  -- The seal's program up to its read of the pinned head; its own entry meets a storage fault.
  let u : Uuid := Vector.replicate 16 1
  let s₁ : AppState := { sampleState with issued := [u] }
  let s₂ : AppState := { s₁ with hmacKey := none }
  obtain ⟨s₃, hx, hp⟩ := first_commit sampleCrates sampleParams sampleKey (sampleCall 2).draw s₂ rfl
  have h₀ := Reachable.here (agentSystem sampleCrates AuditClient) unguarded sampleState
  have h₂ := (h₀.start _ .seal).start _ (.commit sampleParams sampleKey)
  have h₃ := h₂.act 0 rfl true sampleState rfl trivial
  have h₄ := h₃.act 0 rfl (some sampleKey) sampleState ⟨rfl, rfl⟩ trivial
  have h₅ := h₄.act 0 rfl u s₁ ⟨List.not_mem_nil, rfl⟩ trivial
  have h₆ := h₅.act 0 rfl (.error (.storage (.transient "busy"))) s₁
    ⟨(sampleCall 1).draw, some (.transient "busy"), rfl⟩ trivial
  have h₇ := h₆.act 0 rfl () s₂ rfl trivial
  have h₈ := h₇.act 0 rfl (.ok none) s₂ ⟨rfl, none, rfl⟩ trivial
  have h₉ := h₈.act 1 rfl (.ok ()) s₃ ⟨_, _, hx⟩ trivial
  have h₁₀ := h₉.act 0 rfl () { s₃ with auditLog := AuditLog.new } rfl trivial
  refine ⟨sampleState, _, sampleState_blank, h₁₀, ?_⟩
  intro hd
  obtain ⟨head, hhead⟩ := Option.isSome_iff_exists.mp hp
  have hin := hd.inMemory
  rw [show ({ s₃ with auditLog := AuditLog.new } : AppState).store.pinnedHead = some head from hhead]
    at hin
  cases hin

end MerkleVault.App.AuditDurability
