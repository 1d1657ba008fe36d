import MerkleVault.Audit.Chain

/-! # Tamper Evidence and Writer/Verifier Agreement

A vault's life is a list of sessions, each a list of appends; a session starts from the head that the
one before it pinned.  `Written` is what every session keeps: the entries so far are linked and
tagged, the log stands at their tip, and the last entry is the one pinned. -/

namespace MerkleVault.Audit.Integrity

open MerkleVault.Types MerkleVault.External MerkleVault.Audit.Entry MerkleVault.Audit.Writer
open MerkleVault.Audit.Verifier MerkleVault.Audit.Chain

/-! ### Sessions -/

/-- One call of the writer: its parameters and what it draws. -/
structure Call where
  params : AppendParams
  draw : Draw

/-- The log a session starts from. -/
def reopen : Option PinnedHead → AuditLog
  | none => AuditLog.new
  | some h => AuditLog.restoreHead h.headHash h.headSeq

/-- The appends of one session, with the entries returned and the last pinned head. -/
def runSession (K : Crates) (hmacKey : List UInt8) : AuditLog → Option PinnedHead → List Call →
    Except DomainError (List AuditEntry × Option PinnedHead)
  | _, pinned, [] => .ok ([], pinned)
  | log, _, c :: cs => do
    let (log', e, pinned) ← append K log c.params hmacKey c.draw
    let (es, pinned) ← runSession K hmacKey log' (some pinned) cs
    return (e :: es, pinned)

/-- Sessions one after the other, each from the persisted head. -/
def runSessions (K : Crates) (hmacKey : List UInt8) : Option PinnedHead → List (List Call) →
    Except DomainError (List AuditEntry × Option PinnedHead)
  | pinned, [] => .ok ([], pinned)
  | pinned, s :: ss => do
    let (es, pinned) ← runSession K hmacKey (reopen pinned) pinned s
    let (fs, pinned) ← runSessions K hmacKey pinned ss
    return (es ++ fs, pinned)

/-! ### What sessions keep -/

/-- The last entry is the one pinned. -/
def Pins (K : Crates) (key : Key) (es : List AuditEntry) (pinned : Option PinnedHead) : Prop :=
  pinned = es.getLast?.map (pinEntry K key)

/-- What the writer keeps: linked entries under valid tags, and the head at their end. -/
structure Written (K : Crates) (key : Key) (es : List AuditEntry) (log : AuditLog)
    (pinned : Option PinnedHead) : Prop where
  linked : Linked K none es
  tagged : ∀ e ∈ es, TagOk K key e
  at_tip : AtTip log (tipAfter none es)
  pins : Pins K key es pinned

variable {K : Crates} {key : Key}

theorem Written.start : Written K key [] AuditLog.new none :=
  ⟨trivial, by simp, AtTip.new, rfl⟩

/-- **One append.** -/
theorem Written.append {es : List AuditEntry} {log log' : AuditLog} {pinned : Option PinnedHead}
    {c : Call} {e : AuditEntry} {h : PinnedHead} (hw : Written K key es log pinned)
    (ha : append K log c.params key.toList c.draw = .ok (log', e, h)) :
    Written K key (es ++ [e]) log' (some h) := by
  obtain ⟨k, hk, happ⟩ := append_ok ha
  rw [keyOfSlice_toList] at hk
  obtain rfl := Option.some.inj hk
  obtain ⟨hl, ht⟩ := hw.linked.append_writer hw.at_tip happ
  refine ⟨hl, ?_, ht, ?_⟩
  · intro f hf
    rcases List.mem_append.mp hf with hf | hf
    · exact hw.tagged f hf
    · rw [List.mem_singleton.mp hf]
      exact happ.hmac_eq
  · simp [Pins, happ.pinned_eq]

/-- **One restart**: the pinned head is all that the next session needs. -/
theorem Written.reopen {es : List AuditEntry} {log : AuditLog} {pinned : Option PinnedHead}
    (hw : Written K key es log pinned) : Written K key es (reopen pinned) pinned := by
  refine ⟨hw.linked, hw.tagged, ?_, hw.pins⟩
  have hp := hw.pins
  rcases List.eq_nil_or_concat' es with rfl | ⟨fs, e, rfl⟩
  · rw [show pinned = none from hp]
    exact AtTip.new
  · rw [show pinned = some (pinEntry K key e) by simpa [Pins] using hp, tipAfter_concat]
    exact AtTip.restoreHead _ _

theorem runSession_written (K : Crates) (key : Key) (cs : List Call) :
    ∀ {es : List AuditEntry} {log : AuditLog}
    {pinned : Option PinnedHead}, Written K key es log pinned →
    ∃ fs log' pinned', runSession K key.toList log pinned cs = .ok (fs, pinned') ∧
      fs.length = cs.length ∧ Written K key (es ++ fs) log' pinned' := by
  induction cs with
  | nil =>
    intro es log pinned hw
    exact ⟨[], log, pinned, rfl, rfl, by simpa using hw⟩
  | cons c cs ih =>
    intro es log pinned hw
    obtain ⟨log₁, e, h, ha⟩ := exists_append K log c.params key c.draw
    obtain ⟨fs, log', pinned', hr, hlen, hw'⟩ := ih (hw.append ha)
    refine ⟨e :: fs, log', pinned', ?_, by simp [hlen], by simpa using hw'⟩
    simp [runSession, ha, hr, bind, Except.bind, pure, Except.pure]

/-- **Any sequence of sessions** succeeds and leaves a written chain. -/
theorem runSessions_written (K : Crates) (key : Key) (ss : List (List Call)) :
    ∀ {es : List AuditEntry} {log : AuditLog}
    {pinned : Option PinnedHead}, Written K key es log pinned →
    ∃ fs log' pinned', runSessions K key.toList pinned ss = .ok (fs, pinned') ∧
      fs.length = ss.flatten.length ∧ Written K key (es ++ fs) log' pinned' := by
  induction ss with
  | nil =>
    intro es log pinned hw
    exact ⟨[], log, pinned, rfl, rfl, by simpa using hw⟩
  | cons s ss ih =>
    intro es log pinned hw
    obtain ⟨fs, log₁, pinned₁, hr, hlen, hw₁⟩ := runSession_written K key s hw.reopen
    obtain ⟨gs, log', pinned', hrs, hlens, hw'⟩ := ih hw₁
    refine ⟨fs ++ gs, log', pinned', ?_, by simp [hlen, hlens], by simpa using hw'⟩
    simp [runSessions, hr, hrs, bind, Except.bind, pure, Except.pure]

theorem Written.authentic {es : List AuditEntry} {log : AuditLog} {pinned : Option PinnedHead}
    (hw : Written K key es log pinned) (hne : es ≠ []) (hlen : es.length < 2 ^ 64) :
    ∃ h, pinned = some h ∧ Authentic K key es h := by
  rcases List.eq_nil_or_concat' es with rfl | ⟨fs, e, rfl⟩
  · exact absurd rfl hne
  · refine ⟨pinEntry K key e, by simpa [Pins] using hw.pins, hw.linked, hw.tagged, ?_⟩
    rw [tipAfter_concat]
    refine ⟨?_, rfl, rfl⟩
    have hsat : saturatingSucc (pinEntry K key e).headSeq = e.seq + 1 :=
      saturatingSucc_last hw.linked hlen
    rw [hsat]
    rfl

/-! ### Tamper evidence -/

/-- What an intact full pass is evidence of. -/
structure TamperEvidence (K : Crates) (key : Key) (es : List AuditEntry) (h : PinnedHead) :
    Prop where
  anchor : ∀ e, es.head? = some e → e.seq = 0 ∧ e.prevHash = none
  seqs : ∀ i (hi : i < es.length), es[i].seq.toNat = i
  links : ∀ i (hi : i + 1 < es.length), es[i + 1].prevHash = some es[i].currentHash
  hashes : ∀ e ∈ es, HashOk K e (e.prevHash.getD genesis)
  tags : ∀ e ∈ es, TagOk K key e
  headMac : h.hmacHead = some (h.computeHeadMac K key (h.headSeq + 1))
  head : ∀ e, es.getLast? = some e → h.headHash = e.currentHash ∧ h.headSeq = e.seq

theorem tamperEvidence_of_authentic {es : List AuditEntry} {h : PinnedHead} (ha : Authentic K key es h)
    (hne : es ≠ []) (hlen : es.length < 2 ^ 64) : TamperEvidence K key es h := by
  rcases List.eq_nil_or_concat' es with rfl | ⟨fs, e, rfl⟩
  · exact absurd rfl hne
  · have hhead := ha.head
    rw [tipAfter_concat] at hhead
    have hseq : h.headSeq = e.seq := hhead.seq
    have hmac := hhead.mac
    rw [hseq, saturatingSucc_last ha.linked hlen, ← hseq] at hmac
    refine ⟨linked_head_anchored ha.linked, ha.linked.seq_toNat hlen,
      fun i hi => ha.linked.prevHash_getElem i hi (Nat.lt_of_succ_lt hi), ha.linked.hashOk, ha.tagged, hmac,
      ?_⟩
    intro e' he'
    obtain rfl : e = e' := by simpa using he'
    exact ⟨hhead.hash, hseq⟩

/-- With the tags in place, agreement on the links is agreement on everything. -/
theorem sameEntry_of_sameLink {es es' : List AuditEntry} (h : List.Forall₂ SameLink es es')
    (ht : ∀ e ∈ es, TagOk K key e) (ht' : ∀ e ∈ es', TagOk K key e) :
    List.Forall₂ SameEntry es' es := by
  induction h with
  | nil => exact .nil
  | @cons e e' es es' hs _ ih =>
    obtain ⟨hte, ht⟩ := List.forall_mem_cons.mp ht
    obtain ⟨hte', ht'⟩ := List.forall_mem_cons.mp ht'
    refine .cons ?_ (ih ht ht')
    obtain ⟨hr, hp, hc⟩ := hs
    have hid := hr.id
    refine ⟨⟨hid.symm, hr.seq.symm, hr.ts.symm, hr.namespaceId.symm, hr.callerProgram.symm,
      hr.op.symm, hr.outcome.symm, hr.denialReason.symm, hr.handle.symm, hr.sensitivity.symm⟩,
      hp.symm, hc.symm, ?_⟩
    rw [hte, hte', hc, hid]

/-- A written chain is the only authentic log under its head. -/
theorem Written.unique {es es' : List AuditEntry} {log : AuditLog} {h : PinnedHead}
    (hw : Written K key es log (some h)) (ha : Authentic K key es' h)
    (hc : CollisionFree K (hashedBytes K es ∪ hashedBytes K es')) :
    List.Forall₂ SameEntry es' es := by
  have hhead : h.headHash = (tipAfter none es).hash.getD genesis := by
    have hp := hw.pins
    rcases List.eq_nil_or_concat' es with rfl | ⟨fs, e, rfl⟩
    · cases hp
    · obtain rfl : h = pinEntry K key e := by simpa [Pins] using hp
      rw [tipAfter_concat]
      rfl
  have hg := hw.linked.tip_ne_genesis (hc.mono Set.subset_union_left)
  have hg' := ha.linked.tip_ne_genesis (hc.mono Set.subset_union_right)
  have htip := eq_of_getD_genesis hg hg' (hhead.symm.trans ha.head.hash)
  exact sameEntry_of_sameLink (hw.linked.eq_of_tip ha.linked hc htip) hw.tagged ha.tagged

/-- **Tamper evidence.**  An intact full pass over a non-empty log is evidence of every link, hash,
tag and of the head; and a list that differs from what the sessions wrote, timestamps compared at
microsecond precision, is never intact under the head they pinned last.  A log is a vector, so its
length is below `2^64`. -/
theorem verifyFull_tamper_evident (K : Crates) (key : Key) (now : Rfc3339Timestamp) :
    (∀ (log : AuditLog) (h : PinnedHead), log.entries ≠ [] → log.entries.length < 2 ^ 64 →
      (verifyFull K log h key.toList now).outcome = .intact →
      TamperEvidence K key log.entries h) ∧
    (∀ (sessions : List (List Call)) (es : List AuditEntry) (h : PinnedHead) (log : AuditLog),
      runSessions K key.toList none sessions = .ok (es, some h) →
      CollisionFree K (hashedBytes K es ∪ hashedBytes K log.entries) →
      ¬ List.Forall₂ SameEntry log.entries es →
      (verifyFull K log h key.toList now).outcome ≠ .intact) := by
  refine ⟨?_, ?_⟩
  · intro log h hne hlen hv
    exact tamperEvidence_of_authentic (verifyFull_intact_iff.mp hv) hne hlen
  · intro sessions es h log hrun hc hdiff hv
    obtain ⟨fs, log', pinned, hrun', -, hw⟩ :=
      runSessions_written K key sessions Written.start
    rw [hrun] at hrun'
    obtain ⟨rfl, rfl⟩ := Prod.mk.inj (Except.ok.inj hrun')
    rw [List.nil_append] at hw
    exact hdiff (hw.unique (verifyFull_intact_iff.mp hv) hc)

/-- **Writer/verifier agreement.**  Whatever is appended over any number of sessions verifies under
the last pinned head, with every entry counted and every tag examined. -/
theorem sessions_verify_intact (K : Crates) (key : Key) (sessions : List (List Call))
    (now : Rfc3339Timestamp) (hne : sessions.flatten ≠ [])
    (hlen : sessions.flatten.length < 2 ^ 64) :
    ∃ es h, runSessions K key.toList none sessions = .ok (es, some h) ∧
      (verifyFull K (AuditLog.fromPersisted es) h key.toList now).outcome = .intact ∧
      (verifyFull K (AuditLog.fromPersisted es) h key.toList now).entriesChecked.toNat =
        sessions.flatten.length ∧
      (verifyFull K (AuditLog.fromPersisted es) h key.toList now).hmacChecked = true := by
  obtain ⟨es, log, pinned, hrun, hes, hw⟩ :=
    runSessions_written K key sessions Written.start
  rw [List.nil_append] at hw
  have hpos : es ≠ [] := by
    rw [← List.length_pos_iff, hes]
    exact List.length_pos_iff.mpr hne
  obtain ⟨h, rfl, ha⟩ := hw.authentic hpos (by rw [hes]; exact hlen)
  obtain ⟨st, hst, hv⟩ := verifyFull_of_authentic (AuditLog.fromPersisted es) now ha
  refine ⟨es, h, hrun, ?_, ?_, ?_⟩
  · rw [hv]
    rfl
  · rw [hv]
    show st.entriesChecked.toNat = _
    rw [hst.entriesChecked]
    show (0 + UInt64.ofNat es.length).toNat = _
    rw [UInt64.zero_add, hes]
    exact UInt64.toNat_ofNat_of_lt' hlen
  · rw [hv]
    rfl

/-! ### A two-entry log -/

/-- A digest that tells an entry at genesis from a later one. -/
def twoDigests (bs : List UInt8) : Blake3Hash :=
  if bs.drop (bs.length - 32) = genesis.asBytes.toList then ⟨Vector.replicate 32 1⟩
  else ⟨Vector.replicate 32 2⟩

/-- Sixteen bytes twice, the key itself for twenty-four bytes, and the digest for any other input. -/
def sampleKeyedHash (key : Key) (bs : List UInt8) : HmacSignature :=
  if h : bs.length = 16 then ⟨⟨(bs ++ bs).toArray, by simp [h]⟩⟩
  else if bs.length = 24 then ⟨key⟩
  else ⟨(twoDigests bs).asBytes⟩

/-- Crates with two digests. -/
def sampleCrates : Crates := Crates.ofHash twoDigests sampleKeyedHash

/-- The epoch. -/
def epoch : Rfc3339Timestamp := .ofSeconds 0

/-- An append, by its id. -/
def sampleCall (n : UInt8) : Call where
  params := { op := .unseal, outcome := .allow, namespaceId := ⟨Vector.replicate 16 0⟩ }
  draw := ⟨⟨Vector.replicate 16 n⟩, epoch⟩

/-- A key. -/
def sampleKey : Key := Vector.replicate 32 7

theorem sample_hash {e : AuditEntry} {p : Blake3Hash} {bs : List UInt8}
    (h : canonicalBytesForHashing sampleCrates e p = .ok bs) :
    sampleCrates.hash bs =
      if p = genesis then ⟨Vector.replicate 32 1⟩ else ⟨Vector.replicate 32 2⟩ := by
  obtain ⟨js, rfl⟩ : ∃ js, bs = js ++ p.asBytes.toList := by
    unfold canonicalBytesForHashing at h
    split at h
    · exact ⟨_, (Except.ok.inj h).symm⟩
    · cases h
  have hdrop : (js ++ p.asBytes.toList).drop ((js ++ p.asBytes.toList).length - 32) =
      p.asBytes.toList := by
    rw [List.drop_append_of_le_length (by simp)]
    simp
  have hp : p.asBytes.toList = genesis.asBytes.toList ↔ p = genesis := by
    rw [Vector.toList_inj]
    exact ⟨fun hb => congrArg Blake3Hash.mk hb, fun hb => congrArg Blake3Hash.asBytes hb⟩
  show twoDigests _ = _
  unfold twoDigests
  rw [hdrop]
  simp only [hp]

/-- The two digests do not collide on a chain of two entries. -/
theorem sample_collisionFree {e f : AuditEntry} (hl : Linked sampleCrates none [e, f]) :
    CollisionFree sampleCrates (hashedBytes sampleCrates [e, f]) := by
  obtain ⟨he, hf, -⟩ := hl
  have hbe : ∀ bs, canonicalBytesForHashing sampleCrates e (e.prevHash.getD genesis) = .ok bs →
      sampleCrates.hash bs = ⟨Vector.replicate 32 1⟩ := by
    intro bs hbs
    rw [sample_hash hbs, he.prevHash]
    exact if_pos rfl
  have hcur : e.currentHash = ⟨Vector.replicate 32 1⟩ := by
    obtain ⟨bs, hbs, hh⟩ := he.hash
    rw [← hh, hbe bs (by rw [he.prevHash]; exact hbs)]
  have hbf : ∀ bs, canonicalBytesForHashing sampleCrates f (f.prevHash.getD genesis) = .ok bs →
      sampleCrates.hash bs = ⟨Vector.replicate 32 2⟩ := by
    intro bs hbs
    rw [sample_hash hbs, hf.prevHash, if_neg]
    show e.currentHash ≠ genesis
    rw [hcur]
    decide
  have hmem : ∀ bs ∈ hashedBytes sampleCrates [e, f],
      canonicalBytesForHashing sampleCrates e (e.prevHash.getD genesis) = .ok bs ∨
      canonicalBytesForHashing sampleCrates f (f.prevHash.getD genesis) = .ok bs := by
    rintro bs ⟨g, hg, hbs⟩
    simp only [List.mem_cons, List.not_mem_nil, or_false] at hg
    rcases hg with rfl | rfl
    · exact .inl hbs
    · exact .inr hbs
  refine ⟨?_, ?_⟩
  · intro a ha b hb hab
    rcases hmem a ha with h | h
    · rcases hmem b hb with h' | h'
      · exact Except.ok.inj (h.symm.trans h')
      · rw [hbe a h, hbf b h'] at hab
        exact absurd hab (by decide)
    · rcases hmem b hb with h' | h'
      · rw [hbf a h, hbe b h'] at hab
        exact absurd hab (by decide)
      · exact Except.ok.inj (h.symm.trans h')
  · intro bs hbs
    rcases hmem bs hbs with h | h
    · rw [hbe bs h]
      decide
    · rw [hbf bs h]
      decide

theorem two_entry_log_tamper_evident : ∃ es h,
    runSessions sampleCrates sampleKey.toList none [[sampleCall 1, sampleCall 2]] =
      .ok (es, some h) ∧
    TamperEvidence sampleCrates sampleKey es h ∧
    (verifyFull sampleCrates (AuditLog.fromPersisted es.dropLast) h sampleKey.toList epoch).outcome
      ≠ .intact := by
  obtain ⟨es, log, pinned, hrun, hlen, hw⟩ := runSessions_written sampleCrates
    sampleKey [[sampleCall 1, sampleCall 2]] Written.start
  rw [List.nil_append] at hw
  obtain ⟨e, f, rfl⟩ : ∃ e f, es = [e, f] := List.length_eq_two.mp hlen
  obtain ⟨h, rfl, ha⟩ := hw.authentic (by simp) (by simp)
  have hc : CollisionFree sampleCrates
      (hashedBytes sampleCrates [e, f] ∪ hashedBytes sampleCrates [e]) :=
    (sample_collisionFree hw.linked).mono
      (Set.union_subset subset_rfl (hashedBytes_subset (by simp)))
  obtain ⟨h1, h2⟩ := verifyFull_tamper_evident sampleCrates sampleKey epoch
  refine ⟨[e, f], h, hrun, ?_, ?_⟩
  · exact h1 (AuditLog.fromPersisted [e, f]) h (by simp [AuditLog.fromPersisted])
      (by simp [AuditLog.fromPersisted]) (verifyFull_intact_iff.mpr ha)
  · refine h2 _ [e, f] h (AuditLog.fromPersisted [e]) hrun hc ?_
    intro hsame
    exact absurd hsame.length_eq (by simp [AuditLog.fromPersisted])

theorem two_sessions_verify_intact : ∃ es h,
    runSessions sampleCrates sampleKey.toList none [[sampleCall 1], [sampleCall 2]] =
      .ok (es, some h) ∧
    (verifyFull sampleCrates (AuditLog.fromPersisted es) h sampleKey.toList epoch).outcome =
      .intact ∧
    (verifyFull sampleCrates (AuditLog.fromPersisted es) h sampleKey.toList
      epoch).entriesChecked.toNat = 2 ∧
    (verifyFull sampleCrates (AuditLog.fromPersisted es) h sampleKey.toList epoch).hmacChecked =
      true :=
  sessions_verify_intact sampleCrates sampleKey [[sampleCall 1], [sampleCall 2]] epoch (by simp)
    (by simp)

/-! ### Longer logs -/

/-- A digest that counts up from the hash that the input ends with. -/
def nextDigest (bs : List UInt8) : Blake3Hash := ⟨Vector.replicate 32 (bs.getLast?.getD 0 + 1)⟩

/-- Crates whose digest tells successive entries apart. -/
def chainCrates : Crates := Crates.ofHash nextDigest sampleKeyedHash

/-- The hash of the entry with the number, counted from one. -/
def countedHash (n : ℕ) : Blake3Hash := ⟨Vector.replicate 32 (UInt8.ofNat n)⟩

theorem countedHash_injective {i j : ℕ} (hi : i < 256) (hj : j < 256) (h : countedHash i = countedHash j) :
    i = j := by
  have hbyte : UInt8.ofNat i = UInt8.ofNat j := by
    have h0 := congrArg (fun x : Blake3Hash => x.asBytes[0]) h
    simpa [countedHash] using h0
  have hnat := congrArg UInt8.toNat hbyte
  rwa [UInt8.toNat_ofNat_of_lt' hi, UInt8.toNat_ofNat_of_lt' hj] at hnat

theorem chain_hash {e : AuditEntry} {n : ℕ} {bs : List UInt8}
    (h : canonicalBytesForHashing chainCrates e (countedHash n) = .ok bs) :
    chainCrates.hash bs = countedHash (n + 1) := by
  obtain ⟨js, rfl⟩ : ∃ js, bs = js ++ (countedHash n).asBytes.toList := by
    unfold canonicalBytesForHashing at h
    split at h
    · exact ⟨_, (Except.ok.inj h).symm⟩
    · cases h
  have hlast : (js ++ (countedHash n).asBytes.toList).getLast? = some (UInt8.ofNat n) := by
    simp [countedHash, List.getLast?_append]
  show nextDigest _ = _
  unfold nextDigest
  rw [hlast, Option.getD_some, countedHash, UInt8.ofNat_add]
  rfl

end MerkleVault.Audit.Integrity
