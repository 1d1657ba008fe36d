import MerkleVault.Audit.Verifier
import Mathlib

/-! # Hash Chains

`Linked` says what the audit log is meant to be: sequence numbers that count up from the tip, each
`prev_hash` the hash before it, each `current_hash` the hash of the canonical bytes.  The writer
extends linked chains, the verifier accepts exactly the linked chains whose tags and head check out,
and where the hash does not collide a linked chain is determined by its last hash.

* `Linked.append_writer`: an append keeps the chain linked and moves the tip;
* `verifyFull_intact_iff`: the verifier decides `Linked`, the tags and the head commitment;
* `Linked.eq_of_tip`: the last hash determines the chain. -/

namespace MerkleVault.Audit.Chain

open MerkleVault.Types MerkleVault.External MerkleVault.Audit.Entry MerkleVault.Audit.Writer
open MerkleVault.Audit.Verifier

/-- Hash and sequence number of the last entry, `none` before the first. -/
abbrev Tip := Option (Blake3Hash × UInt64)

/-- The number that comes next. -/
def Tip.seq : Tip → UInt64
  | none => 0
  | some (_, s) => s + 1

/-- The hash that the next entry links to. -/
def Tip.hash (t : Tip) : Option Blake3Hash := t.map Prod.fst

/-- The tip after an entry. -/
def tipOf (e : AuditEntry) : Tip := some (e.currentHash, e.seq)

/-- The stored hash is the hash of the canonical bytes after `prev`. -/
def HashOk (K : Crates) (e : AuditEntry) (prev : Blake3Hash) : Prop :=
  ∃ bs, canonicalBytesForHashing K e prev = .ok bs ∧ K.hash bs = e.currentHash

/-- The entry carries the tag of its hash and identifier. -/
def TagOk (K : Crates) (key : Key) (e : AuditEntry) : Prop :=
  e.hmac = some (entryMac K key e.currentHash e.id)

/-- One entry follows a tip. -/
structure Follows (K : Crates) (t : Tip) (e : AuditEntry) : Prop where
  seq : e.seq = t.seq
  prevHash : e.prevHash = t.hash
  hash : HashOk K e (t.hash.getD genesis)

/-- The entries follow one another from a tip on. -/
def Linked (K : Crates) : Tip → List AuditEntry → Prop
  | _, [] => True
  | t, e :: es => Follows K t e ∧ Linked K (tipOf e) es

/-- The tip after the entries. -/
def tipAfter (t : Tip) : List AuditEntry → Tip
  | [] => t
  | e :: es => tipAfter (tipOf e) es

variable {K : Crates}

theorem tipAfter_append : ∀ (t : Tip) (es fs : List AuditEntry),
    tipAfter t (es ++ fs) = tipAfter (tipAfter t es) fs
  | _, [], _ => rfl
  | _, e :: es, fs => tipAfter_append (tipOf e) es fs

@[simp] theorem tipAfter_concat (t : Tip) (es : List AuditEntry) (e : AuditEntry) :
    tipAfter t (es ++ [e]) = tipOf e := by
  rw [tipAfter_append]
  rfl

theorem linked_append : ∀ {t : Tip} {es fs : List AuditEntry},
    Linked K t (es ++ fs) ↔ Linked K t es ∧ Linked K (tipAfter t es) fs
  | t, [], fs => by simp [Linked, tipAfter]
  | t, e :: es, fs => by
    simp only [List.cons_append, Linked, tipAfter, and_assoc]
    rw [linked_append]

theorem linked_concat {t : Tip} {es : List AuditEntry} {e : AuditEntry} :
    Linked K t (es ++ [e]) ↔ Linked K t es ∧ Follows K (tipAfter t es) e := by
  rw [linked_append]
  simp [Linked]

/-! ### The writer extends the chain -/

/-- The log's head and sequence number are those of a tip. -/
structure AtTip (log : AuditLog) (t : Tip) : Prop where
  head : log.head = t.hash
  next : log.head.isSome = true → log.headSeq + 1 = t.seq

theorem AtTip.new : AtTip AuditLog.new none := ⟨rfl, by simp [AuditLog.new]⟩

theorem AtTip.restoreHead (h : Blake3Hash) (s : UInt64) :
    AtTip (AuditLog.restoreHead h s) (some (h, s)) := ⟨rfl, fun _ => rfl⟩

theorem AtTip.push (log : AuditLog) (e : AuditEntry) : AtTip (log.push e) (tipOf e) :=
  ⟨rfl, fun _ => rfl⟩

theorem AtTip.unique {log : AuditLog} {t u : Tip} (ht : AtTip log t) (hu : AtTip log u) :
    t = u := by
  have hh : t.hash = u.hash := ht.head.symm.trans hu.head
  rcases t with _ | ⟨h, s⟩
  · rcases u with _ | ⟨h', s'⟩
    · rfl
    · cases hh
  · rcases u with _ | ⟨h', s'⟩
    · cases hh
    · obtain rfl := Option.some.inj hh
      have hsome : log.head.isSome = true := by rw [ht.head]; rfl
      have hs := (ht.next hsome).symm.trans (hu.next hsome)
      have : s = s' := by simpa [Tip.seq] using hs
      rw [this]

theorem follows_of_appended {log log' : AuditLog} {params : AppendParams} {draw : Draw} {key : Key}
    {e : AuditEntry} {h : PinnedHead} {t : Tip} (ha : Appended K log params draw key log' e h)
    (ht : AtTip log t) : Follows K t e := by
  refine ⟨?_, ?_, ?_⟩
  · rw [ha.seq]
    have hhead := ht.head
    rcases t with _ | ⟨th, ts⟩
    · rw [hhead]
      rfl
    · rw [← ht.next (by rw [hhead]; rfl), hhead]
      rfl
  · rw [ha.prevHash, ht.head]
  · rw [← ht.head]
    exact ha.hash_eq

/-- **An append keeps the chain linked**, moves the tip to the new entry and pins it. -/
theorem Linked.append_writer {log log' : AuditLog} {params : AppendParams} {draw : Draw}
    {key : Key} {e : AuditEntry} {h : PinnedHead} {es : List AuditEntry}
    (hl : Linked K none es) (ht : AtTip log (tipAfter none es))
    (ha : Appended K log params draw key log' e h) :
    Linked K none (es ++ [e]) ∧ AtTip log' (tipAfter none (es ++ [e])) := by
  refine ⟨linked_concat.mpr ⟨hl, follows_of_appended ha ht⟩, ?_⟩
  rw [tipAfter_concat, ha.log_eq]
  exact AtTip.push log e

/-! ### The verifier accepts linked chains -/

/-- The tag is as it should be when a key is given. -/
def TagOk? (K : Crates) (key : Option Key) (e : AuditEntry) : Prop :=
  ∀ k, key = some k → TagOk K k e

/-- A walk state stands at a tip. -/
structure WalkAt (st : WalkState) (t : Tip) : Prop where
  lastHash : st.lastHash = t.hash.getD genesis
  lastSeq : st.lastSeq = t.map Prod.snd
  first : st.firstEntry = t.isNone

theorem WalkAt.new : WalkAt WalkState.new none := ⟨rfl, rfl, rfl⟩

theorem checkHash_ok {e : AuditEntry} {prev : Blake3Hash} {st : WalkState} {pass : Pass} :
    checkHash K e prev st pass = .ok () ↔ HashOk K e prev := by
  unfold checkHash HashOk
  split
  · next err herr =>
    constructor
    · intro h
      cases h
    · rintro ⟨bs, hbs, -⟩
      rw [herr] at hbs
      cases hbs
  · next bs hbs =>
    rw [hbs]
    split_ifs with h
    · simpa using h
    · simpa using h

theorem checkHmac_ok {e : AuditEntry} {key : Option Key} {st : WalkState} {pass : Pass} :
    checkHmac K e key st pass = .ok () ↔ TagOk? K key e := by
  unfold checkHmac TagOk? TagOk
  cases key with
  | none => simp
  | some k =>
    cases he : e.hmac with
    | none => simp
    | some tag =>
      simp only [Option.some.injEq, forall_eq']
      split_ifs with h
      · simp [Ne.symm h]
      · simpa using (not_not.mp h).symm

theorem checkLink_ok {e : AuditEntry} {st : WalkState} {pass : Pass} {h : Blake3Hash} {s : UInt64}
    (hst : WalkAt st (some (h, s))) :
    checkLink e st pass = .ok () ↔ e.seq = s + 1 ∧ e.prevHash = some h := by
  have hh : st.lastHash = h := hst.lastHash
  have hs : st.lastSeq = some s := hst.lastSeq
  unfold checkLink
  rw [hs, hh]
  simp only [Option.any_some, bne_iff_ne]
  split_ifs with h1 h2
  · simp [h1]
  · simp [h2]
  · simpa using ⟨not_not.mp h1, not_not.mp h2⟩

/-- The state after one more entry. -/
def nextState (st : WalkState) (e : AuditEntry) : WalkState :=
  ⟨e.currentHash, some e.seq, st.entriesChecked + 1, st.anomaliesDetected, false⟩

theorem WalkAt.next (st : WalkState) (e : AuditEntry) : WalkAt (nextState st e) (tipOf e) :=
  ⟨rfl, rfl, rfl⟩

/-- The first entry of a full pass has been anchored at genesis. -/
def Anchored (t : Tip) (e : AuditEntry) : Prop := t = none → e.seq = 0 ∧ e.prevHash = none

theorem check_then_ok {β : Type} {x : Except ChainVerifyResult Unit}
    {f : Unit → Except ChainVerifyResult β} {b : β} :
    (x >>= f) = .ok b ↔ x = .ok () ∧ f () = .ok b := by
  cases x with
  | error r => simp [bind, Except.bind]
  | ok a => simp [bind, Except.bind]

/-- **One round of the walk** accepts an entry that follows the tip and carries its tag. -/
theorem checkEntry_ok {key : Option Key} {pass : Pass} {st st' : WalkState} {e : AuditEntry}
    {t : Tip} (hst : WalkAt st t) (hanchor : Anchored t e) :
    checkEntry K key pass st e = .ok st' ↔
      Follows K t e ∧ TagOk? K key e ∧ st' = nextState st e := by
  have hret : ∀ x : WalkState, (pure x : Except ChainVerifyResult WalkState) = .ok st' ↔ st' = x := by
    intro x
    exact ⟨fun h => (Except.ok.inj h).symm, fun h => by rw [h]; rfl⟩
  unfold checkEntry
  rcases t with _ | ⟨h, s⟩
  · obtain ⟨hseq, hprev⟩ := hanchor rfl
    have hfirst : st.firstEntry = true := hst.first
    simp only [hfirst, if_true, Bool.not_true, Bool.false_eq_true, if_false, hprev]
    simp only [check_then_ok, hret, checkHash_ok, checkHmac_ok]
    constructor
    · rintro ⟨hh, ht, rfl⟩
      exact ⟨⟨hseq, hprev, hh⟩, ht, rfl⟩
    · rintro ⟨hf, ht, rfl⟩
      exact ⟨hf.hash, ht, rfl⟩
  · have hfirst : st.firstEntry = false := hst.first
    have hlast : st.lastHash = h := hst.lastHash
    have hst' : WalkAt { st with entriesChecked := st.entriesChecked + 1 } (some (h, s)) :=
      ⟨hst.lastHash, hst.lastSeq, hst.first⟩
    simp only [hfirst, Bool.not_false, if_true, Bool.false_eq_true, if_false]
    rw [hfirst, hlast] at hst'
    simp only [check_then_ok, hret, checkHash_ok, checkHmac_ok, checkLink_ok hst', hlast]
    constructor
    · rintro ⟨⟨hseq, hprev⟩, hh, ht, rfl⟩
      exact ⟨⟨hseq, hprev, hh⟩, ht, rfl⟩
    · rintro ⟨hf, ht, rfl⟩
      exact ⟨⟨hf.seq, hf.prevHash⟩, hf.hash, ht, rfl⟩

/-- What a walk of `es` from `st` leaves. -/
structure Walked (t : Tip) (st : WalkState) (es : List AuditEntry) (st' : WalkState) : Prop where
  at_tip : WalkAt st' (tipAfter t es)
  entriesChecked : st'.entriesChecked = st.entriesChecked + UInt64.ofNat es.length
  anomaliesDetected : st'.anomaliesDetected = st.anomaliesDetected

theorem walk_cons {key : Option Key} {pass : Pass} {st st' : WalkState} {e : AuditEntry}
    {es : List AuditEntry} : walk K key pass st (e :: es) = .ok st' ↔
      ∃ st₁, checkEntry K key pass st e = .ok st₁ ∧ walk K key pass st₁ es = .ok st' := by
  unfold walk
  rw [List.foldlM_cons]
  cases checkEntry K key pass st e with
  | error r => simp [bind, Except.bind]
  | ok st₁ => simp [bind, Except.bind]

/-- **The walk goes through exactly on linked, tagged entries.** -/
theorem walk_ok (K : Crates) (key : Option Key) (pass : Pass) (es : List AuditEntry) :
    ∀ {t : Tip} {st : WalkState}, WalkAt st t → (∀ e, es.head? = some e → Anchored t e) →
      ((∃ st', walk K key pass st es = .ok st') ↔ Linked K t es ∧ ∀ e ∈ es, TagOk? K key e) ∧
      ∀ st', walk K key pass st es = .ok st' → Walked t st es st' := by
  induction es with
  | nil =>
    intro t st hst _
    refine ⟨⟨fun _ => ⟨trivial, by simp⟩, fun _ => ⟨st, rfl⟩⟩, ?_⟩
    intro st' h
    obtain rfl := Except.ok.inj h
    exact ⟨hst, by simp, rfl⟩
  | cons e es ih =>
    intro t st hst hanchor
    have hstep : ∀ st₁, checkEntry K key pass st e = .ok st₁ ↔
        Follows K t e ∧ TagOk? K key e ∧ st₁ = nextState st e :=
      fun st₁ => checkEntry_ok hst (hanchor e rfl)
    have hrest := ih (t := tipOf e) (WalkAt.next st e) (fun e' _ h => by cases h)
    simp only [walk_cons, hstep]
    refine ⟨⟨?_, ?_⟩, ?_⟩
    · rintro ⟨st', st₁, ⟨hf, ht, rfl⟩, hw⟩
      obtain ⟨hl, hts⟩ := hrest.1.mp ⟨st', hw⟩
      exact ⟨⟨hf, hl⟩, List.forall_mem_cons.mpr ⟨ht, hts⟩⟩
    · rintro ⟨⟨hf, hl⟩, hts⟩
      obtain ⟨ht, hts⟩ := List.forall_mem_cons.mp hts
      obtain ⟨st', hw⟩ := hrest.1.mpr ⟨hl, hts⟩
      exact ⟨st', nextState st e, ⟨hf, ht, rfl⟩, hw⟩
    · rintro st' ⟨st₁, ⟨hf, ht, rfl⟩, hw⟩
      have hwalked := hrest.2 st' hw
      refine ⟨hwalked.at_tip, ?_, hwalked.anomaliesDetected⟩
      rw [hwalked.entriesChecked, List.length_cons, UInt64.ofNat_add]
      simp only [nextState, UInt64.reduceOfNat]
      ac_rfl

/-- Sequence number that a pass ends with. -/
def Tip.lastSeq (t : Tip) : UInt64 := (t.map Prod.snd).getD 0

/-- The pinned head commits to a tip. -/
structure HeadOk (K : Crates) (key : Key) (h : PinnedHead) (t : Tip) : Prop where
  mac : h.hmacHead = some (h.computeHeadMac K key (saturatingSucc h.headSeq))
  hash : h.headHash = t.hash.getD genesis
  seq : h.headSeq = t.lastSeq

theorem checkHeadCommitment_none {st : WalkState} {h : PinnedHead} {key : Key} {t : Tip}
    (pass : Pass) (hst : WalkAt st t) :
    checkHeadCommitment K st h (some key) pass = none ↔ HeadOk K key h t := by
  have hseq : st.lastSeq.getD 0 = t.lastSeq := by rw [hst.lastSeq]; rfl
  unfold checkHeadCommitment
  simp only [hseq, hst.lastHash]
  split_ifs with h1 h2 h3
  · refine iff_of_false (by simp) fun hok => ?_
    simp [hok.mac] at h1
  · refine iff_of_false (by simp) fun hok => ?_
    rw [hok.seq] at h2
    exact absurd h2 (UInt64.lt_irrefl _)
  · refine iff_of_false (by simp) fun hok => ?_
    rcases h3 with h3 | h3
    · exact h3 hok.hash.symm
    · exact h3 hok.seq.symm
  · push Not at h3
    refine iff_of_true rfl ⟨?_, h3.1.symm, h3.2.symm⟩
    simpa using h1

theorem checkGenesisAnchor_none {es : List AuditEntry} (log : AuditLog) (pass : Pass) :
    checkGenesisAnchor es log pass = none ↔
      ∀ e, es.head? = some e → e.seq = 0 ∧ e.prevHash = none := by
  unfold checkGenesisAnchor
  cases es with
  | nil => simp
  | cons e es => simp

theorem keyDiscipline_toList (key : Key) : keyDiscipline key.toList = some (some key) := by
  have hne : key.toList ≠ [] := by
    intro h
    have := congrArg List.length h
    simp at this
  rw [keyDiscipline, if_neg hne, keyOfSlice_toList, Option.map_some]

theorem verifyFull_eq (log : AuditLog) (h : PinnedHead) (key : Key) (now : Rfc3339Timestamp) :
    verifyFull K log h key.toList now =
      verifySlice K log h (Pass.full now) (some key) log.entries := by
  simp [verifyFull, verifyRange, keyDiscipline_toList, sliceEntries, Pass.full]

/-! ### Sequence numbers and the head -/

/-- A linked chain counts up from its tip. -/
theorem Linked.seq_getElem {es : List AuditEntry} : ∀ {t : Tip}, Linked K t es →
    ∀ i (hi : i < es.length), es[i].seq = t.seq + UInt64.ofNat i := by
  induction es with
  | nil =>
    intro t _ i hi
    simp at hi
  | cons e es ih =>
    intro t hl i hi
    cases i with
    | zero => simpa using hl.1.seq
    | succ i =>
      rw [List.getElem_cons_succ, ih hl.2 i (by simpa using hi), UInt64.ofNat_add]
      simp only [tipOf, Tip.seq, hl.1.seq, UInt64.reduceOfNat]
      ac_rfl

theorem Linked.seq_toNat {es : List AuditEntry} (hl : Linked K none es)
    (hlen : es.length < 2 ^ 64) (i : ℕ) (hi : i < es.length) : es[i].seq.toNat = i := by
  have h0 : Tip.seq none = 0 := rfl
  rw [hl.seq_getElem i hi, h0, UInt64.zero_add]
  exact UInt64.toNat_ofNat_of_lt' (hi.trans hlen)

theorem Linked.prevHash_getElem {es : List AuditEntry} : ∀ {t : Tip}, Linked K t es →
    ∀ i (hi : i + 1 < es.length) (_ : i < es.length), es[i + 1].prevHash = some es[i].currentHash := by
  induction es with
  | nil =>
    intro t _ i hi
    simp at hi
  | cons e es ih =>
    intro t hl i hi hlt
    cases i with
    | zero =>
      cases es with
      | nil => simp at hi
      | cons f es => exact hl.2.1.prevHash
    | succ i => exact ih hl.2 i (by simpa using hi) (by simpa using hlt)

theorem Linked.hashOk {es : List AuditEntry} : ∀ {t : Tip}, Linked K t es →
    ∀ e ∈ es, HashOk K e (e.prevHash.getD genesis) := by
  induction es with
  | nil =>
    intro t _ e he
    cases he
  | cons f es ih =>
    intro t hl e he
    rcases List.mem_cons.mp he with rfl | he
    · rw [hl.1.prevHash]
      exact hl.1.hash
    · exact ih hl.2 e he

/-- The entry count does not saturate at the end of a chain that fits in memory. -/
theorem saturatingSucc_last {fs : List AuditEntry} {e : AuditEntry}
    (hl : Linked K none (fs ++ [e])) (hlen : (fs ++ [e]).length < 2 ^ 64) :
    saturatingSucc e.seq = e.seq + 1 := by
  have hseq := hl.seq_toNat hlen fs.length (by simp)
  rw [List.getElem_concat_length rfl] at hseq
  have hne : e.seq ≠ UInt64.ofNat (2 ^ 64 - 1) := by
    intro h
    rw [h] at hseq
    simp at hseq hlen
    omega
  rw [saturatingSucc, if_neg hne]

/-! ### A rejected pass is never intact -/

theorem checkLink_error {e : AuditEntry} {st : WalkState} {pass : Pass} {r : ChainVerifyResult}
    (h : checkLink e st pass = .error r) : r.outcome ≠ .intact := by
  unfold checkLink at h
  split_ifs at h
  · cases h; simp [brokenAt, reject]
  · cases h; simp [brokenAt, reject]

theorem checkHash_error {e : AuditEntry} {prev : Blake3Hash} {st : WalkState} {pass : Pass}
    {r : ChainVerifyResult} (h : checkHash K e prev st pass = .error r) : r.outcome ≠ .intact := by
  unfold checkHash at h
  split at h
  · cases h; simp [reject]
  · split_ifs at h
    cases h; simp [brokenAt, reject]

theorem checkHmac_error {e : AuditEntry} {key : Option Key} {st : WalkState} {pass : Pass}
    {r : ChainVerifyResult} (h : checkHmac K e key st pass = .error r) : r.outcome ≠ .intact := by
  unfold checkHmac at h
  split at h
  · cases h
  · split at h
    · cases h; simp [reject]
    · split_ifs at h
      cases h; simp [reject]

theorem check_then_error {β : Type} {x : Except ChainVerifyResult Unit}
    {f : Unit → Except ChainVerifyResult β} {r : ChainVerifyResult} (h : (x >>= f) = .error r) :
    x = .error r ∨ f () = .error r := by
  cases x with
  | error r' =>
    cases h
    exact .inl rfl
  | ok a => exact .inr h

theorem checkEntry_error {key : Option Key} {pass : Pass} {st : WalkState} {e : AuditEntry}
    {r : ChainVerifyResult} (h : checkEntry K key pass st e = .error r) : r.outcome ≠ .intact := by
  unfold checkEntry at h
  cases hf : st.firstEntry with
  | true =>
    simp only [hf, Bool.not_true, Bool.false_eq_true, if_false] at h
    rcases check_then_error h with h | h
    · exact checkHash_error h
    rcases check_then_error h with h | h
    · exact checkHmac_error h
    cases h
  | false =>
    simp only [hf, Bool.not_false, if_true] at h
    rcases check_then_error h with h | h
    · exact checkLink_error h
    rcases check_then_error h with h | h
    · exact checkHash_error h
    rcases check_then_error h with h | h
    · exact checkHmac_error h
    cases h

theorem walk_error {key : Option Key} {pass : Pass} {es : List AuditEntry} :
    ∀ {st : WalkState} {r : ChainVerifyResult}, walk K key pass st es = .error r →
      r.outcome ≠ .intact := by
  induction es with
  | nil =>
    intro st r h
    cases h
  | cons e es ih =>
    intro st r h
    unfold walk at h
    rw [List.foldlM_cons] at h
    cases hc : checkEntry K key pass st e with
    | error r' =>
      rw [hc] at h
      cases h
      exact checkEntry_error hc
    | ok st₁ =>
      rw [hc] at h
      exact ih h

theorem checkGenesisAnchor_some {es : List AuditEntry} {log : AuditLog} {pass : Pass}
    {r : ChainVerifyResult} (h : checkGenesisAnchor es log pass = some r) :
    r.outcome ≠ .intact := by
  unfold checkGenesisAnchor at h
  split at h
  · cases h
  · split_ifs at h
    cases h; simp [reject]

theorem checkHeadCommitment_some {st : WalkState} {h : PinnedHead} {key : Option Key} {pass : Pass}
    {r : ChainVerifyResult} (hr : checkHeadCommitment K st h key pass = some r) :
    r.outcome ≠ .intact := by
  unfold checkHeadCommitment at hr
  simp only at hr
  split_ifs at hr
  all_goals cases hr; simp [reject]

/-! ### What a full pass decides -/

/-- Linked from genesis, tagged throughout, and committed to by the head. -/
structure Authentic (K : Crates) (key : Key) (es : List AuditEntry) (h : PinnedHead) : Prop where
  linked : Linked K none es
  tagged : ∀ e ∈ es, TagOk K key e
  head : HeadOk K key h (tipAfter none es)

theorem linked_head_anchored {es : List AuditEntry} (h : Linked K none es) :
    ∀ e, es.head? = some e → e.seq = 0 ∧ e.prevHash = none := by
  intro e he
  cases es with
  | nil => cases he
  | cons e' es =>
    obtain rfl := Option.some.inj he
    exact ⟨h.1.seq, h.1.prevHash⟩

theorem tagOk?_some {key : Key} {e : AuditEntry} : TagOk? K (some key) e ↔ TagOk K key e := by
  simp [TagOk?]

/-- An authentic log verifies, with every entry counted and every tag examined. -/
theorem verifyFull_of_authentic (log : AuditLog) {h : PinnedHead} {key : Key}
    (now : Rfc3339Timestamp) (ha : Authentic K key log.entries h) :
    ∃ st, Walked none WalkState.new log.entries st ∧
      verifyFull K log h key.toList now = intactResult st true (Pass.full now) := by
  have hanchor := linked_head_anchored ha.linked
  obtain ⟨hiff, hwalked⟩ := walk_ok K (some key) (Pass.full now) log.entries WalkAt.new
    (fun e he _ => hanchor e he)
  obtain ⟨st, hst⟩ := hiff.mpr ⟨ha.linked, fun e he => tagOk?_some.mpr (ha.tagged e he)⟩
  have hw := hwalked st hst
  have hhead := (checkHeadCommitment_none (Pass.full now) hw.at_tip).mpr ha.head
  refine ⟨st, hw, ?_⟩
  rw [verifyFull_eq]
  unfold verifySlice
  have hgen := (checkGenesisAnchor_none log (Pass.full now)).mpr hanchor
  simp only [Pass.full] at hst hhead hgen ⊢
  simp [hgen, hst, hhead]

/-- **A full pass is intact exactly on authentic logs.** -/
theorem verifyFull_intact_iff {log : AuditLog} {h : PinnedHead} {key : Key}
    {now : Rfc3339Timestamp} :
    (verifyFull K log h key.toList now).outcome = .intact ↔ Authentic K key log.entries h := by
  constructor
  · intro hv
    rw [verifyFull_eq] at hv
    unfold verifySlice at hv
    simp only [Pass.full, Option.isNone_none, Bool.and_self, if_true] at hv
    split at hv
    · next r hr => exact absurd hv (checkGenesisAnchor_some hr)
    · next hgen =>
      have hanchor := (checkGenesisAnchor_none _ _).mp hgen
      obtain ⟨hiff, hwalked⟩ := walk_ok K (some key) ⟨none, none, now⟩ log.entries
        WalkAt.new (fun e he _ => hanchor e he)
      split at hv
      · next r hr => exact absurd hv (walk_error hr)
      · next st hst =>
        split at hv
        · next r hr => exact absurd hv (checkHeadCommitment_some hr)
        · next hhead =>
          obtain ⟨hl, ht⟩ := hiff.mp ⟨st, hst⟩
          exact ⟨hl, fun e he => tagOk?_some.mp (ht e he),
            (checkHeadCommitment_none _ (hwalked st hst).at_tip).mp hhead⟩
  · intro ha
    obtain ⟨st, -, hv⟩ := verifyFull_of_authentic log now ha
    rw [hv]
    rfl

/-! ### The last hash determines the chain -/

/-- The byte strings that the hashes of the entries are taken of. -/
def hashedBytes (K : Crates) (es : List AuditEntry) : Set (List UInt8) :=
  {bs | ∃ e ∈ es, canonicalBytesForHashing K e (e.prevHash.getD genesis) = .ok bs}

/-- On these strings the hash has no collision and never hits the genesis sentinel. -/
structure CollisionFree (K : Crates) (S : Set (List UInt8)) : Prop where
  injOn : Set.InjOn K.hash S
  ne_genesis : ∀ bs ∈ S, K.hash bs ≠ genesis

theorem CollisionFree.mono {S T : Set (List UInt8)} (h : CollisionFree K T) (hST : S ⊆ T) :
    CollisionFree K S :=
  ⟨h.injOn.mono hST, fun bs hbs => h.ne_genesis bs (hST hbs)⟩

theorem hashedBytes_subset {es fs : List AuditEntry} (h : es ⊆ fs) :
    hashedBytes K es ⊆ hashedBytes K fs := by
  rintro bs ⟨e, he, hbs⟩
  exact ⟨e, h he, hbs⟩

/-- Agreement on everything but the tag. -/
structure SameLink (e e' : AuditEntry) : Prop where
  record : SameRecord e e'
  prevHash : e.prevHash = e'.prevHash
  currentHash : e.currentHash = e'.currentHash

theorem Follows.mem_hashedBytes {t : Tip} {e : AuditEntry} (hf : Follows K t e)
    (es : List AuditEntry) (he : e ∈ es) : ∃ bs ∈ hashedBytes K es,
      canonicalBytesForHashing K e (t.hash.getD genesis) = .ok bs ∧ K.hash bs = e.currentHash := by
  obtain ⟨bs, hbs, hh⟩ := hf.hash
  exact ⟨bs, ⟨e, he, by rw [hf.prevHash]; exact hbs⟩, hbs, hh⟩

/-- No entry of a linked chain hashes to the genesis sentinel. -/
theorem Linked.tip_ne_genesis {es : List AuditEntry} (hl : Linked K none es)
    (hc : CollisionFree K (hashedBytes K es)) : (tipAfter none es).hash ≠ some genesis := by
  rcases List.eq_nil_or_concat' es with rfl | ⟨es', e, rfl⟩
  · intro h
    cases h
  · obtain ⟨bs, hmem, -, hh⟩ := (linked_concat.mp hl).2.mem_hashedBytes (es' ++ [e]) (by simp)
    rw [tipAfter_concat]
    intro h
    exact hc.ne_genesis bs hmem (hh.trans (Option.some.inj h))

/-- Away from the sentinel, the hash that an entry is chained to tells the tip. -/
theorem eq_of_getD_genesis {x y : Option Blake3Hash} (hx : x ≠ some genesis)
    (hy : y ≠ some genesis) (h : x.getD genesis = y.getD genesis) : x = y := by
  rcases x with _ | a
  · rcases y with _ | b
    · rfl
    · exact absurd (congrArg some h.symm) hy
  · rcases y with _ | b
    · exact absurd (congrArg some h) hx
    · exact congrArg some h

/-- Two entries with one hash agree, and so do the tips they follow. -/
theorem Follows.agree {es es' : List AuditEntry} {e e' : AuditEntry} {S : Set (List UInt8)}
    (hl : Linked K none es) (hl' : Linked K none es') (hc : CollisionFree K S)
    (hS : hashedBytes K (es ++ [e]) ⊆ S) (hS' : hashedBytes K (es' ++ [e']) ⊆ S)
    (hf : Follows K (tipAfter none es) e) (hf' : Follows K (tipAfter none es') e')
    (hh : e.currentHash = e'.currentHash) :
    SameLink e e' ∧ (tipAfter none es).hash = (tipAfter none es').hash := by
  obtain ⟨bs, hmem, hbs, hhash⟩ := hf.mem_hashedBytes (es ++ [e]) (by simp)
  obtain ⟨bs', hmem', hbs', hhash'⟩ := hf'.mem_hashedBytes (es' ++ [e']) (by simp)
  obtain rfl := hc.injOn (hS hmem) (hS' hmem') (by rw [hhash, hhash', hh])
  obtain ⟨hrec, hprev⟩ := canonicalBytes_inj hbs hbs'
  have hg := hl.tip_ne_genesis (hc.mono ((hashedBytes_subset (by simp)).trans hS))
  have hg' := hl'.tip_ne_genesis (hc.mono ((hashedBytes_subset (by simp)).trans hS'))
  have htip := eq_of_getD_genesis hg hg' hprev
  exact ⟨⟨hrec, by rw [hf.prevHash, hf'.prevHash, htip], hh⟩, htip⟩

/-- **The last hash determines the chain**, by descending from the end one entry at a time. -/
theorem Linked.eq_of_tip {es : List AuditEntry} : ∀ {es' : List AuditEntry},
    Linked K none es → Linked K none es' →
    CollisionFree K (hashedBytes K es ∪ hashedBytes K es') →
    (tipAfter none es).hash = (tipAfter none es').hash → List.Forall₂ SameLink es es' := by
  induction es using List.reverseRecOn with
  | nil =>
    intro es' _ _ _ htip
    rcases List.eq_nil_or_concat' es' with rfl | ⟨fs', e', rfl⟩
    · exact .nil
    · rw [tipAfter_concat] at htip
      cases htip
  | append_singleton es e ih =>
    intro es' hl hl' hc htip
    rcases List.eq_nil_or_concat' es' with rfl | ⟨fs', e', rfl⟩
    · rw [tipAfter_concat] at htip
      cases htip
    · obtain ⟨hle, hf⟩ := linked_concat.mp hl
      obtain ⟨hle', hf'⟩ := linked_concat.mp hl'
      rw [tipAfter_concat, tipAfter_concat] at htip
      obtain ⟨hsame, hprev⟩ := Follows.agree hle hle' hc Set.subset_union_left
        Set.subset_union_right hf hf' (Option.some.inj htip)
      have hsub : hashedBytes K es ∪ hashedBytes K fs' ⊆
          hashedBytes K (es ++ [e]) ∪ hashedBytes K (fs' ++ [e']) :=
        Set.union_subset_union (hashedBytes_subset (by simp)) (hashedBytes_subset (by simp))
      exact List.rel_append (ih hle hle' (hc.mono hsub) hprev) (.cons hsame .nil)

end MerkleVault.Audit.Chain
