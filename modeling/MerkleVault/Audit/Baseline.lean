import MerkleVault.Audit.Integrity

/-! # Baselines

After a key incident an operator pins a baseline: an entry from which on the tags are required, while
links and hashes are still verified over the whole log.  The baseline carries a MAC of its own.

* `verifyFromBaseline_exact`: what an intact pass from a baseline decides, and how it compares with a
  full pass. -/

namespace MerkleVault.Audit.Baseline

open MerkleVault.Types MerkleVault.External MerkleVault.Audit.Entry MerkleVault.Audit.Writer
open MerkleVault.Audit.Verifier MerkleVault.Audit.Chain MerkleVault.Audit.Integrity

/-! ### The baseline -/

/-- `AuditBaseline`: the entry from which the chain counts again. -/
structure AuditBaseline where
  baselineSeq : UInt64
  baselineId : AuditEntryId
  baselineHash : Blake3Hash
  entryCount : UInt64
  reason : String
  createdAt : Rfc3339Timestamp
  hmac : Option HmacSignature
deriving DecidableEq

namespace AuditBaseline

/-- `AuditBaseline::new`, without a tag. -/
def new (baselineSeq : UInt64) (baselineId : AuditEntryId) (baselineHash : Blake3Hash)
    (entryCount : UInt64) (reason : String) (createdAt : Rfc3339Timestamp) : AuditBaseline :=
  ⟨baselineSeq, baselineId, baselineHash, entryCount, reason, createdAt, none⟩

/-- `BASELINE_MAC_DOMAIN`. -/
def macDomain : List UInt8 := "merkle audit baseline v1".toUTF8.data.toList

/-- What the tag of a baseline covers. -/
def macInput (b : AuditBaseline) : List UInt8 :=
  macDomain ++ b.baselineHash.asBytes.toList ++ toLeBytes b.baselineSeq ++
    b.baselineId.inner.toList ++ toLeBytes b.entryCount

variable (K : Crates)

/-- `compute_mac`. -/
def computeMac (b : AuditBaseline) (key : Key) : HmacSignature := K.keyedHash key b.macInput

/-- `with_mac`. -/
def withMac (b : AuditBaseline) (key : Key) : AuditBaseline :=
  { b with hmac := some (b.computeMac K key) }

/-- `verify_mac`: an absent tag does not verify. -/
def verifyMac (b : AuditBaseline) (key : Key) : Bool :=
  b.hmac.any fun stored => b.computeMac K key == stored

theorem verifyMac_iff {b : AuditBaseline} {key : Key} :
    b.verifyMac K key = true ↔ b.hmac = some (b.computeMac K key) := by
  unfold verifyMac
  cases b.hmac with
  | none => simp
  | some stored =>
    rw [Option.any_some, beq_iff_eq, Option.some.injEq]
    exact eq_comm

end AuditBaseline

/-! ### The pass -/

variable (K : Crates)

/-- State accumulated along a pass from a baseline. -/
structure BaselineState where
  walk : WalkState
  quarantinedBelow : UInt64
  anchorOk : Bool

/-- Before the first entry. -/
def BaselineState.new : BaselineState := ⟨WalkState.new, 0, false⟩

/-- The tag is examined at and above the baseline only. -/
def keyFrom (baseline : AuditBaseline) (key : Key) (entry : AuditEntry) : Option Key :=
  if baseline.baselineSeq ≤ entry.seq then some key else none

/-- One round of the walk. -/
def checkFromBaseline (baseline : AuditBaseline) (key : Key) (pass : Pass) (state : BaselineState)
    (entry : AuditEntry) : Except ChainVerifyResult BaselineState := do
  let walk ← checkEntry K (keyFrom baseline key entry) pass state.walk entry
  return {
    walk := walk
    quarantinedBelow :=
      if baseline.baselineSeq ≤ entry.seq then state.quarantinedBelow else state.quarantinedBelow + 1
    anchorOk :=
      if entry.seq = baseline.baselineSeq then entry.currentHash = baseline.baselineHash
      else state.anchorOk }

/-- The results that carry the baseline: both ends of the pass. -/
def baselineResult (outcome : ChainOutcome) (state : BaselineState) (anomalies : UInt32)
    (hmacChecked : Bool) (baseline : AuditBaseline) (verifiedAt : Rfc3339Timestamp) :
    ChainVerifyResult where
  outcome := outcome
  headHash := some state.walk.lastHash
  entriesChecked := state.walk.entriesChecked
  anomaliesDetected := anomalies
  hmacChecked := hmacChecked
  rangeFromId := none
  rangeToId := none
  baselineSeq := some baseline.baselineSeq
  quarantinedBelow := state.quarantinedBelow
  triggeredBy := none
  verifiedAt := verifiedAt

/-- The walk over all entries, strict from the baseline on. -/
def walkFromBaseline (log : AuditLog) (pinnedHead : PinnedHead) (baseline : AuditBaseline) (key : Key)
    (verifiedAt : Rfc3339Timestamp) : ChainVerifyResult :=
  let pass := Pass.full verifiedAt
  let entries := sliceEntries log none none
  match checkGenesisAnchor entries log pass with
  | some result => result
  | none =>
    match entries.foldlM (checkFromBaseline K baseline key pass) BaselineState.new with
    | .error result => result
    | .ok state =>
      if !state.anchorOk then
        baselineResult (.baselineEntryMissing baseline.baselineSeq) state
          (state.walk.anomaliesDetected + 1) false baseline verifiedAt
      else match checkHeadCommitment K state.walk pinnedHead (some key) pass with
        | some result => result
        | none => baselineResult .intact state state.walk.anomaliesDetected true baseline verifiedAt

/-- A pass that fails before the walk. -/
def baselineEarlyReject (outcome : ChainOutcome) (log : AuditLog) (baseline : AuditBaseline)
    (verifiedAt : Rfc3339Timestamp) : ChainVerifyResult :=
  { reject outcome log.head WalkState.new (Pass.full verifiedAt) with
    baselineSeq := some baseline.baselineSeq }

/-- `verify_from_baseline`. -/
def verifyFromBaseline (log : AuditLog) (pinnedHead : PinnedHead) (baseline : AuditBaseline)
    (hmacKey : List UInt8) (now : Rfc3339Timestamp) : ChainVerifyResult :=
  match keyOfSlice hmacKey with
  | none => baselineEarlyReject .hmacKeyUnavailable log baseline now
  | some key =>
    if !baseline.verifyMac K key then
      baselineEarlyReject (.baselineMacMismatch baseline.baselineId) log baseline now
    else walkFromBaseline K log pinnedHead baseline key now

/-! ### What the pass decides -/

variable {K}

/-- The anchor flag after the entries: the last entry with the number decides. -/
def anchorAfter (baseline : AuditBaseline) (anchorOk : Bool) (es : List AuditEntry) : Bool :=
  es.foldl (fun ok e =>
    if e.seq = baseline.baselineSeq then e.currentHash = baseline.baselineHash else ok) anchorOk

/-- Where the numbers differ, the flag says that the anchor is there. -/
theorem anchorAfter_iff {baseline : AuditBaseline} : ∀ {es : List AuditEntry} {anchorOk : Bool},
    (es.map (·.seq)).Nodup → (anchorAfter baseline anchorOk es = true ↔
      (∃ e ∈ es, e.seq = baseline.baselineSeq ∧ e.currentHash = baseline.baselineHash) ∨
      anchorOk = true ∧ ∀ e ∈ es, e.seq ≠ baseline.baselineSeq)
  | [], anchorOk, _ => by simp [anchorAfter]
  | e :: es, anchorOk, hnodup => by
    obtain ⟨hnotin, hnodup⟩ := List.nodup_cons.mp hnodup
    rw [anchorAfter, List.foldl_cons, ← anchorAfter, anchorAfter_iff hnodup]
    by_cases he : e.seq = baseline.baselineSeq
    · have hrest : ∀ f ∈ es, f.seq ≠ baseline.baselineSeq := by
        intro f hf hseq
        exact hnotin (List.mem_map.mpr ⟨f, hf, hseq.trans he.symm⟩)
      rw [if_pos he]
      constructor
      · rintro (⟨f, hf, hseq, -⟩ | ⟨hhash, -⟩)
        · exact absurd hseq (hrest f hf)
        · exact .inl ⟨e, List.mem_cons_self, he, by simpa using hhash⟩
      · rintro (⟨f, hf, hseq, hhash⟩ | ⟨-, hne⟩)
        · rcases List.mem_cons.mp hf with rfl | hf
          · exact .inr ⟨by simpa using hhash, hrest⟩
          · exact absurd hseq (hrest f hf)
        · exact absurd he (hne e List.mem_cons_self)
    · rw [if_neg he]
      simp only [List.mem_cons, exists_eq_or_imp, forall_eq_or_imp, he, false_and, false_or,
        not_false_eq_true, true_and, ne_eq]

/-- What a pass over `es` leaves. -/
structure Passed (baseline : AuditBaseline) (t : Tip) (st : BaselineState) (es : List AuditEntry)
    (st' : BaselineState) : Prop where
  walked : Walked t st.walk es st'.walk
  quarantined : st'.quarantinedBelow = st.quarantinedBelow +
    UInt64.ofNat (es.countP fun e => e.seq < baseline.baselineSeq)
  anchor : st'.anchorOk = anchorAfter baseline st.anchorOk es

/-- The tag is in place where it is required. -/
def TagFrom (K : Crates) (baseline : AuditBaseline) (key : Key) (e : AuditEntry) : Prop :=
  baseline.baselineSeq ≤ e.seq → TagOk K key e

theorem tagOk?_keyFrom {baseline : AuditBaseline} {key : Key} {e : AuditEntry} :
    TagOk? K (keyFrom baseline key e) e ↔ TagFrom K baseline key e := by
  unfold keyFrom TagFrom
  split_ifs with h
  · rw [tagOk?_some]
    exact ⟨fun ht _ => ht, fun ht => ht h⟩
  · exact iff_of_true (fun _ hk => nomatch hk) fun hle => absurd hle h

/-- The state after one more entry. -/
def nextFromBaseline (baseline : AuditBaseline) (st : BaselineState) (e : AuditEntry) :
    BaselineState where
  walk := nextState st.walk e
  quarantinedBelow :=
    if baseline.baselineSeq ≤ e.seq then st.quarantinedBelow else st.quarantinedBelow + 1
  anchorOk :=
    if e.seq = baseline.baselineSeq then e.currentHash = baseline.baselineHash else st.anchorOk

/-- **One round** accepts an entry that follows the tip, with its tag where it is required. -/
theorem checkFromBaseline_ok {baseline : AuditBaseline} {key : Key} {pass : Pass}
    {st st' : BaselineState} {e : AuditEntry} {t : Tip} (hst : WalkAt st.walk t)
    (hanchor : Anchored t e) : checkFromBaseline K baseline key pass st e = .ok st' ↔
      Follows K t e ∧ TagFrom K baseline key e ∧ st' = nextFromBaseline baseline st e := by
  rw [← tagOk?_keyFrom]
  have hcheck : ∀ w, checkEntry K (keyFrom baseline key e) pass st.walk e = .ok w ↔
      Follows K t e ∧ TagOk? K (keyFrom baseline key e) e ∧ w = nextState st.walk e :=
    fun w => checkEntry_ok hst hanchor
  unfold checkFromBaseline
  cases hc : checkEntry K (keyFrom baseline key e) pass st.walk e with
  | error r =>
    refine iff_of_false (fun h => nomatch h) ?_
    rintro ⟨hf, ht, -⟩
    have := (hcheck _).mpr ⟨hf, ht, rfl⟩
    rw [hc] at this
    cases this
  | ok w =>
    obtain ⟨hf, ht, rfl⟩ := (hcheck w).mp hc
    constructor
    · intro h
      exact ⟨hf, ht, (Except.ok.inj h).symm⟩
    · rintro ⟨-, -, rfl⟩
      rfl

theorem foldFromBaseline_cons {baseline : AuditBaseline} {key : Key} {pass : Pass}
    {st st' : BaselineState} {e : AuditEntry} {es : List AuditEntry} :
    (e :: es).foldlM (checkFromBaseline K baseline key pass) st = .ok st' ↔
      ∃ st₁, checkFromBaseline K baseline key pass st e = .ok st₁ ∧
        es.foldlM (checkFromBaseline K baseline key pass) st₁ = .ok st' := by
  rw [List.foldlM_cons]
  cases checkFromBaseline K baseline key pass st e with
  | error r => simp [bind, Except.bind]
  | ok st₁ => simp [bind, Except.bind]

theorem Passed.cons {baseline : AuditBaseline} {t : Tip} {st st' : BaselineState} {e : AuditEntry}
    {es : List AuditEntry} (h : Passed baseline (tipOf e) (nextFromBaseline baseline st e) es st') :
    Passed baseline t st (e :: es) st' := by
  refine ⟨⟨h.walked.at_tip, ?_, h.walked.anomaliesDetected⟩, ?_, h.anchor⟩
  · rw [h.walked.entriesChecked, List.length_cons, UInt64.ofNat_add]
    simp only [nextFromBaseline, nextState, UInt64.reduceOfNat]
    ac_rfl
  · rw [h.quarantined, List.countP_cons, nextFromBaseline]
    by_cases hle : baseline.baselineSeq ≤ e.seq
    · have hlt : ¬ e.seq < baseline.baselineSeq := UInt64.not_lt.mpr hle
      simp [hle, hlt]
    · have hlt : e.seq < baseline.baselineSeq := UInt64.not_le.mp hle
      simp only [hle, if_false, hlt, decide_true, if_true, UInt64.ofNat_add, UInt64.reduceOfNat]
      ac_rfl

/-- **The walk goes through exactly on linked entries, tagged from the baseline on.** -/
theorem foldFromBaseline_ok (K : Crates) (baseline : AuditBaseline) (key : Key) (pass : Pass)
    (es : List AuditEntry) : ∀ (t : Tip) (st : BaselineState), WalkAt st.walk t →
      (∀ e, es.head? = some e → Anchored t e) →
      ((∃ st', es.foldlM (checkFromBaseline K baseline key pass) st = .ok st') ↔
        Linked K t es ∧ ∀ e ∈ es, TagFrom K baseline key e) ∧
      ∀ st', es.foldlM (checkFromBaseline K baseline key pass) st = .ok st' →
        Passed baseline t st es st' := by
  induction es with
  | nil =>
    intro t st hst _
    refine ⟨⟨fun _ => ⟨trivial, by simp⟩, fun _ => ⟨st, rfl⟩⟩, ?_⟩
    intro st' h
    obtain rfl := Except.ok.inj h
    exact ⟨⟨hst, by simp, rfl⟩, by simp, rfl⟩
  | cons e es ih =>
    intro t st hst hanchor
    have hstep : ∀ st₁, checkFromBaseline K baseline key pass st e = .ok st₁ ↔
        Follows K t e ∧ TagFrom K baseline key e ∧ st₁ = nextFromBaseline baseline st e :=
      fun st₁ => checkFromBaseline_ok hst (hanchor e rfl)
    have hrest := ih (tipOf e) (nextFromBaseline baseline st e) (WalkAt.next st.walk e)
      (fun e' _ h => by cases h)
    simp only [foldFromBaseline_cons, hstep]
    refine ⟨⟨?_, ?_⟩, ?_⟩
    · rintro ⟨st', st₁, ⟨hf, ht, rfl⟩, hw⟩
      obtain ⟨hl, hts⟩ := hrest.1.mp ⟨st', hw⟩
      exact ⟨⟨hf, hl⟩, List.forall_mem_cons.mpr ⟨ht, hts⟩⟩
    · rintro ⟨⟨hf, hl⟩, hts⟩
      obtain ⟨ht, hts⟩ := List.forall_mem_cons.mp hts
      obtain ⟨st', hw⟩ := hrest.1.mpr ⟨hl, hts⟩
      exact ⟨st', _, ⟨hf, ht, rfl⟩, hw⟩
    · rintro st' ⟨st₁, ⟨hf, ht, rfl⟩, hw⟩
      exact (hrest.2 st' hw).cons

theorem foldFromBaseline_error {baseline : AuditBaseline} {key : Key} {pass : Pass}
    {es : List AuditEntry} : ∀ {st : BaselineState} {r : ChainVerifyResult},
      es.foldlM (checkFromBaseline K baseline key pass) st = .error r → r.outcome ≠ .intact := by
  induction es with
  | nil =>
    intro st r h
    cases h
  | cons e es ih =>
    intro st r h
    rw [List.foldlM_cons, checkFromBaseline] at h
    cases hc : checkEntry K (keyFrom baseline key e) pass st.walk e with
    | error r' =>
      rw [hc] at h
      cases h
      exact checkEntry_error hc
    | ok w =>
      rw [hc] at h
      exact ih h

/-! ### Numbers of a linked log -/

section Numbers

variable {es : List AuditEntry} (hl : Linked K none es) (hlen : es.length < 2 ^ 64)

include hl hlen

theorem seqs_eq_range : es.map (fun e => e.seq.toNat) = List.range es.length := by
  refine List.ext_getElem (by simp) fun i hi _ => ?_
  rw [List.getElem_map, List.getElem_range]
  exact hl.seq_toNat hlen i (by simpa using hi)

theorem seqs_nodup : (es.map (·.seq)).Nodup := by
  have h : (es.map fun e => e.seq.toNat).Nodup := by
    rw [seqs_eq_range hl hlen]
    exact List.nodup_range
  have hmap : es.map (fun e => e.seq.toNat) = (es.map (·.seq)).map UInt64.toNat := by
    rw [List.map_map]
    rfl
  rw [hmap] at h
  exact h.of_map _

/-- Below the anchor there are as many entries as its number says. -/
theorem countP_below {b : UInt64} (hb : ∃ e ∈ es, e.seq = b) :
    es.countP (fun e => e.seq < b) = b.toNat := by
  obtain ⟨e, he, rfl⟩ := hb
  obtain ⟨i, hi, rfl⟩ := List.getElem_of_mem he
  have hcount : es.countP (fun f => f.seq < es[i].seq) =
      (es.map fun f => f.seq.toNat).countP fun n => n < i := by
    rw [List.countP_map]
    refine List.countP_congr fun f _ => ?_
    simp [UInt64.lt_iff_toNat_lt, hl.seq_toNat hlen i hi]
  rw [hcount, seqs_eq_range hl hlen, hl.seq_toNat hlen i hi]
  have hsplit : List.range es.length = List.range i ++ (List.range (es.length - i)).map (i + ·) := by
    rw [← List.range_add, Nat.add_sub_cancel' hi.le]
  rw [hsplit, List.countP_append, List.countP_eq_length.mpr, List.countP_eq_zero.mpr]
  · simp
  · simp
  · simp

end Numbers

/-- Each entry continues the one before it. -/
def Continues (es : List AuditEntry) : Prop :=
  ∀ i (hi : i + 1 < es.length) (_ : i < es.length), es[i + 1].seq = es[i].seq + 1 ∧
    es[i + 1].prevHash = some es[i].currentHash

theorem continues_of_linked {es : List AuditEntry} {t : Tip} (hl : Linked K t es) : Continues es := by
  intro i hi hlt
  refine ⟨?_, hl.prevHash_getElem i hi hlt⟩
  rw [hl.seq_getElem (i + 1) hi, hl.seq_getElem i hlt, UInt64.ofNat_add, UInt64.add_assoc]
  rfl

theorem linked_of_continues {es : List AuditEntry} : ∀ {t : Tip},
    (∀ e, es.head? = some e → e.seq = t.seq ∧ e.prevHash = t.hash) → Continues es →
    (∀ e ∈ es, HashOk K e (e.prevHash.getD genesis)) → Linked K t es := by
  induction es with
  | nil => exact fun _ _ _ => trivial
  | cons e es ih =>
    intro t hhead hcont hhash
    obtain ⟨hseq, hprev⟩ := hhead e rfl
    have hok := hhash e List.mem_cons_self
    rw [hprev] at hok
    refine ⟨⟨hseq, hprev, hok⟩, ih ?_ ?_ fun f hf => hhash f (List.mem_cons_of_mem _ hf)⟩
    · intro f hf
      cases es with
      | nil => cases hf
      | cons f' es =>
        obtain rfl := Option.some.inj hf
        exact hcont 0 (by simp) (by simp)
    · intro i hi hlt
      exact hcont (i + 1) (by simpa using hi) (by simpa using hlt)

/-- What an intact pass from a baseline is evidence of. -/
structure BaselineEvidence (K : Crates) (key : Key) (baseline : AuditBaseline) (es : List AuditEntry)
    (h : PinnedHead) : Prop where
  mac : baseline.hmac = some (baseline.computeMac K key)
  first : ∃ e, es.head? = some e ∧ e.seq = 0 ∧ e.prevHash = none
  links : Continues es
  hashes : ∀ e ∈ es, HashOk K e (e.prevHash.getD genesis)
  tags : ∀ e ∈ es, baseline.baselineSeq ≤ e.seq → TagOk K key e
  anchor : ∃ e ∈ es, e.seq = baseline.baselineSeq ∧ e.currentHash = baseline.baselineHash
  headMac : h.hmacHead = some (h.computeHeadMac K key (saturatingSucc h.headSeq))
  head : ∃ e, es.getLast? = some e ∧ h.headHash = e.currentHash ∧ h.headSeq = e.seq

theorem BaselineEvidence.linked {key : Key} {baseline : AuditBaseline} {es : List AuditEntry}
    {h : PinnedHead} (he : BaselineEvidence K key baseline es h) : Linked K none es := by
  obtain ⟨f, hf, hseq, hprev⟩ := he.first
  refine linked_of_continues (fun e hhead => ?_) he.links he.hashes
  obtain rfl := Option.some.inj (hf.symm.trans hhead)
  exact ⟨hseq, hprev⟩

theorem headOk_iff {key : Key} {h : PinnedHead} {es : List AuditEntry} (hne : es ≠ []) :
    HeadOk K key h (tipAfter none es) ↔
      h.hmacHead = some (h.computeHeadMac K key (saturatingSucc h.headSeq)) ∧
      ∃ e, es.getLast? = some e ∧ h.headHash = e.currentHash ∧ h.headSeq = e.seq := by
  rcases List.eq_nil_or_concat' es with rfl | ⟨fs, e, rfl⟩
  · exact absurd rfl hne
  · rw [tipAfter_concat]
    constructor
    · exact fun hok => ⟨hok.mac, e, by simp, hok.hash, hok.seq⟩
    · rintro ⟨hmac, e', he', hhash, hseq⟩
      obtain rfl : e = e' := by simpa using he'
      exact ⟨hmac, hhash, hseq⟩

/-- The pass, once the key and the MAC are settled. -/
theorem verifyFromBaseline_eq {log : AuditLog} {h : PinnedHead} {baseline : AuditBaseline} {key : Key}
    (now : Rfc3339Timestamp) (hmac : baseline.verifyMac K key = true) :
    verifyFromBaseline K log h baseline key.toList now = walkFromBaseline K log h baseline key now := by
  simp [verifyFromBaseline, keyOfSlice_toList, hmac]

theorem anchorOk_iff {baseline : AuditBaseline} {es : List AuditEntry} {st : BaselineState}
    (hl : Linked K none es) (hlen : es.length < 2 ^ 64)
    (hp : Passed baseline none BaselineState.new es st) : st.anchorOk = true ↔
      ∃ e ∈ es, e.seq = baseline.baselineSeq ∧ e.currentHash = baseline.baselineHash := by
  rw [hp.anchor, anchorAfter_iff (seqs_nodup hl hlen)]
  simp [BaselineState.new]

/-- On the evidence the pass is intact, and counts the entries below the baseline. -/
theorem verifyFromBaseline_of_evidence {log : AuditLog} {h : PinnedHead} {baseline : AuditBaseline}
    {key : Key} (now : Rfc3339Timestamp) (hlen : log.entries.length < 2 ^ 64)
    (he : BaselineEvidence K key baseline log.entries h) :
    (verifyFromBaseline K log h baseline key.toList now).outcome = .intact ∧
      (verifyFromBaseline K log h baseline key.toList now).quarantinedBelow = baseline.baselineSeq := by
  have hl := he.linked
  obtain ⟨a, ha, haseq, hahash⟩ := he.anchor
  have hgen := (checkGenesisAnchor_none log (Pass.full now)).mpr (linked_head_anchored hl)
  obtain ⟨hiff, hpassed⟩ := foldFromBaseline_ok K baseline key (Pass.full now) log.entries
    none BaselineState.new WalkAt.new fun e hhead _ => linked_head_anchored hl e hhead
  obtain ⟨st, hfold⟩ := hiff.mpr ⟨hl, he.tags⟩
  have hp := hpassed st hfold
  have hok := (anchorOk_iff hl hlen hp).mpr he.anchor
  have hhead := (checkHeadCommitment_none (Pass.full now) hp.walked.at_tip).mpr
    ((headOk_iff (List.ne_nil_of_mem ha)).mpr ⟨he.headMac, he.head⟩)
  have hresult : verifyFromBaseline K log h baseline key.toList now =
      baselineResult .intact st st.walk.anomaliesDetected true baseline now := by
    rw [verifyFromBaseline_eq now ((AuditBaseline.verifyMac_iff K).mpr he.mac), walkFromBaseline]
    have hslice : sliceEntries log none none = log.entries := rfl
    simp only [hslice, hgen, hfold, hok, hhead, Bool.not_true, Bool.false_eq_true, if_false]
  rw [hresult]
  refine ⟨rfl, ?_⟩
  show st.quarantinedBelow = _
  rw [hp.quarantined, countP_below hl hlen ⟨a, ha, haseq⟩]
  simp [BaselineState.new]

theorem evidence_of_verifyFromBaseline {log : AuditLog} {h : PinnedHead} {baseline : AuditBaseline}
    {key : Key} {now : Rfc3339Timestamp} (hlen : log.entries.length < 2 ^ 64)
    (hv : (verifyFromBaseline K log h baseline key.toList now).outcome = .intact) :
    BaselineEvidence K key baseline log.entries h := by
  by_cases hmac : baseline.verifyMac K key = true
  swap
  · simp [verifyFromBaseline, keyOfSlice_toList, hmac, baselineEarlyReject, reject] at hv
  rw [verifyFromBaseline_eq now hmac, walkFromBaseline] at hv
  have hslice : sliceEntries log none none = log.entries := rfl
  simp only [hslice] at hv
  split at hv
  · next r hr => exact absurd hv (checkGenesisAnchor_some hr)
  next hgen =>
  have hanchor := (checkGenesisAnchor_none _ _).mp hgen
  obtain ⟨hiff, hpassed⟩ := foldFromBaseline_ok K baseline key (Pass.full now) log.entries
    none BaselineState.new WalkAt.new fun e he _ => hanchor e he
  split at hv
  · next r hr => exact absurd hv (foldFromBaseline_error hr)
  next st hfold =>
  obtain ⟨hl, ht⟩ := hiff.mp ⟨st, hfold⟩
  have hp := hpassed st hfold
  split_ifs at hv with hok
  · cases hv
  obtain ⟨a, ha, haseq, hahash⟩ := (anchorOk_iff hl hlen hp).mp (by simpa using hok)
  have hne : log.entries ≠ [] := List.ne_nil_of_mem ha
  split at hv
  · next r hr => exact absurd hv (checkHeadCommitment_some hr)
  next hhead =>
  obtain ⟨hheadMac, hlast⟩ := (headOk_iff hne).mp
    ((checkHeadCommitment_none (Pass.full now) hp.walked.at_tip).mp hhead)
  obtain ⟨f, es, hes⟩ := List.exists_cons_of_ne_nil hne
  have hf : log.entries.head? = some f := by
    rw [hes]
    rfl
  exact ⟨(AuditBaseline.verifyMac_iff K).mp hmac, ⟨f, hf, hanchor f hf⟩, continues_of_linked hl,
    hl.hashOk, ht, ⟨a, ha, haseq, hahash⟩, hheadMac, hlast⟩

/-! ### Compared with a full pass -/

/-- An authentic log with the anchor in it is evidence for the baseline. -/
theorem evidence_of_authentic {key : Key} {baseline : AuditBaseline} {es : List AuditEntry}
    {h : PinnedHead} (ha : Authentic K key es h) (hmac : baseline.verifyMac K key = true)
    (hanchor : ∃ e ∈ es, e.seq = baseline.baselineSeq ∧ e.currentHash = baseline.baselineHash) :
    BaselineEvidence K key baseline es h := by
  obtain ⟨a, hmem, hat⟩ := hanchor
  have hne : es ≠ [] := List.ne_nil_of_mem hmem
  obtain ⟨hheadMac, hlast⟩ := (headOk_iff hne).mp ha.head
  obtain ⟨f, es', hes⟩ := List.exists_cons_of_ne_nil hne
  have hf : es.head? = some f := by
    rw [hes]
    rfl
  exact ⟨(AuditBaseline.verifyMac_iff K).mp hmac, ⟨f, hf, linked_head_anchored ha.linked f hf⟩,
    continues_of_linked ha.linked, ha.linked.hashOk, fun e he _ => ha.tagged e he, ⟨a, hmem, hat⟩,
    hheadMac, hlast⟩

/-- With the tags below the baseline in place, the evidence is that of a full pass. -/
theorem authentic_of_evidence {key : Key} {baseline : AuditBaseline} {es : List AuditEntry}
    {h : PinnedHead} (he : BaselineEvidence K key baseline es h) (hlen : es.length < 2 ^ 64)
    (hbelow : ∀ e ∈ es.take baseline.baselineSeq.toNat, TagOk K key e) : Authentic K key es h := by
  obtain ⟨a, hmem, -⟩ := he.anchor
  refine ⟨he.linked, fun e hin => ?_, (headOk_iff (List.ne_nil_of_mem hmem)).mpr ⟨he.headMac, he.head⟩⟩
  by_cases hle : baseline.baselineSeq ≤ e.seq
  · exact he.tags e hin hle
  · obtain ⟨i, hi, rfl⟩ := List.getElem_of_mem hin
    have hlt := UInt64.lt_iff_toNat_lt.mp (UInt64.not_le.mp hle)
    rw [he.linked.seq_toNat hlen i hi] at hlt
    exact hbelow _ (List.mem_take_iff_getElem.mpr ⟨i, by omega, rfl⟩)

/-- **Baseline verification is exact.**  An intact pass is the evidence, and counts the entries below
the baseline; where a full pass is intact and the baseline is authentic and anchored at an entry, the
pass is intact, and it detects whatever a full pass detects of changes at or above the anchor. -/
theorem verifyFromBaseline_exact (K : Crates) (key : Key) (now : Rfc3339Timestamp) :
    (∀ (log : AuditLog) (h : PinnedHead) (baseline : AuditBaseline), log.entries.length < 2 ^ 64 →
      ((verifyFromBaseline K log h baseline key.toList now).outcome = .intact ↔
        BaselineEvidence K key baseline log.entries h) ∧
      ((verifyFromBaseline K log h baseline key.toList now).outcome = .intact →
        (verifyFromBaseline K log h baseline key.toList now).quarantinedBelow =
          baseline.baselineSeq)) ∧
    ∀ (log : AuditLog) (h : PinnedHead) (baseline : AuditBaseline), log.entries.length < 2 ^ 64 →
      (verifyFull K log h key.toList now).outcome = .intact → baseline.verifyMac K key = true →
      (∃ e ∈ log.entries, e.seq = baseline.baselineSeq ∧ e.currentHash = baseline.baselineHash) →
      (verifyFromBaseline K log h baseline key.toList now).outcome = .intact ∧
      ∀ (log' : AuditLog) (h' : PinnedHead), log'.entries.length < 2 ^ 64 →
        log'.entries.take baseline.baselineSeq.toNat = log.entries.take baseline.baselineSeq.toNat →
        (verifyFull K log' h' key.toList now).outcome ≠ .intact →
        (verifyFromBaseline K log' h' baseline key.toList now).outcome ≠ .intact := by
  refine ⟨?_, ?_⟩
  · intro log h baseline hlen
    refine ⟨⟨evidence_of_verifyFromBaseline hlen, fun he =>
      (verifyFromBaseline_of_evidence now hlen he).1⟩, fun hv => ?_⟩
    exact (verifyFromBaseline_of_evidence now hlen (evidence_of_verifyFromBaseline hlen hv)).2
  · intro log h baseline hlen hfull hmac hanchor
    have ha := verifyFull_intact_iff.mp hfull
    refine ⟨(verifyFromBaseline_of_evidence now hlen (evidence_of_authentic ha hmac hanchor)).1, ?_⟩
    intro log' h' hlen' hsame hdetected hv
    have he := evidence_of_verifyFromBaseline hlen' hv
    refine hdetected (verifyFull_intact_iff.mpr (authentic_of_evidence he hlen' fun e hin => ?_))
    rw [hsame] at hin
    exact ha.tagged e (List.mem_of_mem_take hin)

/-- Two entries, a baseline at the second, and the log without it. -/
theorem two_entry_baseline_exact : ∃ (es : List AuditEntry) (h : PinnedHead) (b : AuditBaseline),
    es.length = 2 ∧ b.baselineSeq = 1 ∧
    (verifyFromBaseline sampleCrates (AuditLog.fromPersisted es) h b sampleKey.toList epoch).outcome =
      .intact ∧
    (verifyFromBaseline sampleCrates (AuditLog.fromPersisted es) h b sampleKey.toList
      epoch).quarantinedBelow = 1 ∧
    (verifyFromBaseline sampleCrates (AuditLog.fromPersisted (es.take 1)) h b sampleKey.toList
      epoch).outcome ≠ .intact := by
  obtain ⟨es, log, pinned, -, hcount, hw⟩ := runSessions_written sampleCrates sampleKey
    [[sampleCall 1, sampleCall 2]] Written.start
  rw [List.nil_append] at hw
  obtain ⟨e, f, rfl⟩ : ∃ e f, es = [e, f] := List.length_eq_two.mp hcount
  obtain ⟨h, -, ha⟩ := hw.authentic (by simp) (by simp)
  let b := (AuditBaseline.new f.seq f.id f.currentHash 2 "rotation" epoch).withMac sampleCrates
    sampleKey
  have hseq : f.seq = 1 := ha.linked.2.1.seq.trans (by rw [tipOf, Tip.seq, ha.linked.1.seq]; rfl)
  have hlen : (AuditLog.fromPersisted [e, f]).entries.length < 2 ^ 64 := by
    simp [AuditLog.fromPersisted]
  obtain ⟨hexact, hfull⟩ := verifyFromBaseline_exact sampleCrates sampleKey epoch
  obtain ⟨hintact, hdetects⟩ := hfull (AuditLog.fromPersisted [e, f]) h b hlen
    (verifyFull_intact_iff.mpr ha) ((AuditBaseline.verifyMac_iff sampleCrates).mpr rfl)
    ⟨f, by simp [AuditLog.fromPersisted], rfl, rfl⟩
  refine ⟨[e, f], h, b, rfl, hseq, hintact, ?_, ?_⟩
  · rw [(hexact (AuditLog.fromPersisted [e, f]) h b hlen).2 hintact]
    exact hseq
  · refine hdetects (AuditLog.fromPersisted [e]) h (by simp [AuditLog.fromPersisted]) ?_ ?_
    · have hb : b.baselineSeq.toNat = 1 := congrArg UInt64.toNat hseq
      rw [hb]
      rfl
    · rw [Ne, verifyFull_intact_iff]
      intro ha'
      have hs : h.headSeq = f.seq := ha.head.seq
      have hs' : h.headSeq = e.seq := ha'.head.seq
      rw [hs, hseq, ha.linked.1.seq] at hs'
      exact absurd hs' (by decide)

end MerkleVault.Audit.Baseline
