import MerkleVault.Audit.Baseline
import MerkleVault.Audit.Ranges
import Mathlib

/-!
# Sums at the Top of their Range

The verifier adds to sequence numbers and counters, and a sum past the top of its type panics where
overflow checks are on and wraps where they are off.  Here the passes are run with every plain sum
checked: `none` is a sum that does not fit.

The counters count entries of a vector, so they fit.  The number of an entry is whatever the log says,
and the link of an entry adds one to the number before it: a pass between bounds reaches that sum with
any number, a pass from genesis has counted up to it.

* `foldlM_checked`: a loop of checked steps;
* `verifyRangeChecked_none`: when a pass between bounds overflows;
* `verify_overflows_iff`: the three passes together.
-/

namespace MerkleVault.Audit.Overflow

open MerkleVault.Types MerkleVault.External MerkleVault.Audit.Entry MerkleVault.Audit.Writer
open MerkleVault.Audit.Verifier MerkleVault.Audit.Chain MerkleVault.Audit.Integrity
open MerkleVault.Audit.Ranges MerkleVault.Audit.Baseline

/-- The largest sequence number. -/
def maxSeq : UInt64 := UInt64.ofNat (2 ^ 64 - 1)

/-! ### Checked sums -/

/-- `n + 1` of a `u64`. -/
def plusOne (n : UInt64) : Option UInt64 := if n = maxSeq then none else some (n + 1)

/-- `n + 1` of a `u32`. -/
def plusOne32 (n : UInt32) : Option UInt32 :=
  if n = UInt32.ofNat (2 ^ 32 - 1) then none else some (n + 1)

/-- A computation that may reject, and whose sums may overflow. -/
abbrev Checked (α : Type) := ExceptT ChainVerifyResult Option α

/-- A sum that panics on overflow. -/
def sum {α : Type} (x : Option α) : Checked α := ExceptT.lift x

/-- A check of the source.  When it rejects, its result counts one more anomaly. -/
def rejecting {α : Type} (state : WalkState) (check : Except ChainVerifyResult α) : Checked α :=
  match check with
  | .ok a => pure a
  | .error result => do
    let _ ← sum (plusOne32 state.anomaliesDetected)
    throw result

section

variable (K : Crates)

/-- `check_link`: the number before is increased by a plain sum. -/
def checkLinkChecked (entry : AuditEntry) (state : WalkState) (pass : Pass) : Checked Unit := do
  match state.lastSeq with
  | some prevSeq => let _ ← sum (plusOne prevSeq)
  | none => pure ()
  rejecting state (checkLink entry state pass)

/-- `check_entry` with checked sums. -/
def checkEntryChecked (hmacKey : Option Key) (pass : Pass) (state : WalkState) (entry : AuditEntry) :
    Checked WalkState := do
  let entriesChecked ← sum (plusOne state.entriesChecked)
  let state := { state with entriesChecked := entriesChecked }
  let prevForHashing := if state.firstEntry then entry.prevHash.getD genesis else state.lastHash
  if !state.firstEntry then
    checkLinkChecked entry state pass
  rejecting state (checkHash K entry prevForHashing state pass)
  rejecting state (checkHmac K entry hmacKey state pass)
  return { state with
    lastHash := entry.currentHash
    lastSeq := some entry.seq
    firstEntry := false }

/-- `verify_slice` with checked sums. -/
def verifySliceChecked (log : AuditLog) (pinnedHead : PinnedHead) (pass : Pass) (key : Option Key)
    (entries : List AuditEntry) : Option ChainVerifyResult :=
  let isFull := pass.fromId.isNone && pass.toId.isNone
  match (if isFull then checkGenesisAnchor entries log pass else none) with
  | some result => some result
  | none =>
    match (entries.foldlM (checkEntryChecked K key pass) WalkState.new).run with
    | none => none
    | some (.error result) => some result
    | some (.ok state) =>
      match (if isFull then checkHeadCommitment K state pinnedHead key pass else none) with
      | some result => (plusOne32 state.anomaliesDetected).map fun _ => result
      | none => some (intactResult state key.isSome pass)

/-- `verify_range` with checked sums. -/
def verifyRangeChecked (log : AuditLog) (pinnedHead : PinnedHead) (fromId toId : Option AuditEntryId)
    (hmacKey : List UInt8) (now : Rfc3339Timestamp) : Option ChainVerifyResult :=
  let pass : Pass := ⟨fromId, toId, now⟩
  match keyDiscipline hmacKey with
  | none => some (reject .hmacKeyUnavailable log.head WalkState.new pass)
  | some key =>
    let entries := sliceEntries log fromId toId
    if entries = [] ∧ (fromId.isSome ∨ toId.isSome) then
      some { intactResult WalkState.new false pass with headHash := log.head }
    else verifySliceChecked K log pinnedHead pass key entries

/-- `verify_full` with checked sums. -/
def verifyFullChecked (log : AuditLog) (pinnedHead : PinnedHead) (hmacKey : List UInt8)
    (now : Rfc3339Timestamp) : Option ChainVerifyResult :=
  verifyRangeChecked K log pinnedHead none none hmacKey now

/-- The step from a baseline with checked sums. -/
def checkFromBaselineChecked (baseline : AuditBaseline) (key : Key) (pass : Pass)
    (state : BaselineState) (entry : AuditEntry) : Checked BaselineState := do
  let walk ← checkEntryChecked K (keyFrom baseline key entry) pass state.walk entry
  let quarantinedBelow ←
    if baseline.baselineSeq ≤ entry.seq then pure state.quarantinedBelow
    else sum (plusOne state.quarantinedBelow)
  return {
    walk := walk
    quarantinedBelow := quarantinedBelow
    anchorOk :=
      if entry.seq = baseline.baselineSeq then entry.currentHash = baseline.baselineHash
      else state.anchorOk }

/-- The walk from a baseline with checked sums. -/
def walkFromBaselineChecked (log : AuditLog) (pinnedHead : PinnedHead) (baseline : AuditBaseline)
    (key : Key) (verifiedAt : Rfc3339Timestamp) : Option ChainVerifyResult :=
  let pass := Pass.full verifiedAt
  let entries := sliceEntries log none none
  match checkGenesisAnchor entries log pass with
  | some result => some result
  | none =>
    match (entries.foldlM (checkFromBaselineChecked K baseline key pass) BaselineState.new).run with
    | none => none
    | some (.error result) => some result
    | some (.ok state) =>
      if !state.anchorOk then
        (plusOne32 state.walk.anomaliesDetected).map fun anomalies =>
          baselineResult (.baselineEntryMissing baseline.baselineSeq) state anomalies false baseline
            verifiedAt
      else match checkHeadCommitment K state.walk pinnedHead (some key) pass with
        | some result => (plusOne32 state.walk.anomaliesDetected).map fun _ => result
        | none =>
          some (baselineResult .intact state state.walk.anomaliesDetected true baseline verifiedAt)

/-- `verify_from_baseline` with checked sums. -/
def verifyFromBaselineChecked (log : AuditLog) (pinnedHead : PinnedHead) (baseline : AuditBaseline)
    (hmacKey : List UInt8) (now : Rfc3339Timestamp) : Option ChainVerifyResult :=
  match keyOfSlice hmacKey with
  | none => some (baselineEarlyReject .hmacKeyUnavailable log baseline now)
  | some key =>
    if !baseline.verifyMac K key then
      some (baselineEarlyReject (.baselineMacMismatch baseline.baselineId) log baseline now)
    else walkFromBaselineChecked K log pinnedHead baseline key now

end

/-! ### Loops of checked steps -/

section Loops

variable {σ α ε : Type} {step : σ → α → Except ε σ} {checked : σ → α → ExceptT ε Option σ}
  {stuck : σ → Prop} {Room : ℕ → σ → Prop}

/-- **A loop of checked steps** overflows exactly if it comes, by steps that accept, to a state in which
the next step does, and otherwise it is the loop. -/
theorem foldlM_checked (hstuck : ∀ n s a, Room (n + 1) s → stuck s → (checked s a).run = none)
    (hfree : ∀ n s a, Room (n + 1) s → ¬stuck s → (checked s a).run = some (step s a))
    (hroom : ∀ n s a s', Room (n + 1) s → step s a = .ok s' → Room n s') :
    ∀ (l : List α) (s : σ), Room l.length s →
      ((l.foldlM checked s).run = none ↔ ∃ before next after s', l = before ++ next :: after ∧
        before.foldlM step s = .ok s' ∧ stuck s') ∧
      ((l.foldlM checked s).run ≠ none → (l.foldlM checked s).run = some (l.foldlM step s))
  | [], s, _ => by
    constructor
    · refine iff_of_false (fun h => by cases h) ?_
      rintro ⟨before, next, after, s', h, -, -⟩
      simp at h
    · exact fun _ => rfl
  | a :: l, s, hs => by
    by_cases h : stuck s
    · have hrun : ((a :: l).foldlM checked s).run = none := by
        rw [List.foldlM_cons, ExceptT.run_bind, hstuck _ s a hs h]
        rfl
      exact ⟨iff_of_true hrun ⟨[], a, l, s, rfl, rfl, h⟩, fun hne => absurd hrun hne⟩
    · cases hstep : step s a with
      | error e =>
        have hrun : ((a :: l).foldlM checked s).run = some (.error e) := by
          rw [List.foldlM_cons, ExceptT.run_bind, hfree _ s a hs h, hstep]
          rfl
        have hloop : (a :: l).foldlM step s = .error e := by
          rw [List.foldlM_cons, hstep]
          rfl
        rw [hrun, hloop]
        refine ⟨iff_of_false (fun h => by cases h) ?_, fun _ => rfl⟩
        rintro ⟨before, next, after, s', hl, hbefore, hs'⟩
        cases before with
        | nil =>
          obtain rfl := Except.ok.inj hbefore
          exact h hs'
        | cons b before =>
          obtain ⟨rfl, -⟩ := List.cons.inj hl
          rw [List.foldlM_cons, hstep] at hbefore
          cases hbefore
      | ok s₁ =>
        have hrun : ((a :: l).foldlM checked s).run = (l.foldlM checked s₁).run := by
          rw [List.foldlM_cons, ExceptT.run_bind, hfree _ s a hs h, hstep]
          rfl
        have hloop : (a :: l).foldlM step s = l.foldlM step s₁ := by
          rw [List.foldlM_cons, hstep]
          rfl
        obtain ⟨hiff, hsame⟩ := foldlM_checked hstuck hfree hroom l s₁ (hroom _ s a s₁ hs hstep)
        rw [hrun, hloop]
        refine ⟨hiff.trans ⟨?_, ?_⟩, hsame⟩
        · rintro ⟨before, next, after, s', rfl, hbefore, hs'⟩
          refine ⟨a :: before, next, after, s', rfl, ?_, hs'⟩
          rw [List.foldlM_cons, hstep]
          exact hbefore
        · rintro ⟨before, next, after, s', hl, hbefore, hs'⟩
          cases before with
          | nil =>
            obtain rfl := Except.ok.inj hbefore
            exact absurd hs' h
          | cons b before =>
            obtain ⟨rfl, rfl⟩ := List.cons.inj hl
            rw [List.foldlM_cons, hstep] at hbefore
            exact ⟨before, next, after, s', rfl, hbefore, hs'⟩

end Loops

/-! ### One round -/

section Rounds

variable {K : Crates} {key : Option Key} {pass : Pass} {st st' : WalkState} {e : AuditEntry} {n : ℕ}

theorem plusOne_eq {m : UInt64} (h : m ≠ maxSeq) : plusOne m = some (m + 1) := if_neg h

theorem plusOne_of_lt {m : UInt64} (h : m.toNat + 1 < 2 ^ 64) : plusOne m = some (m + 1) := by
  refine plusOne_eq fun heq => ?_
  have hmax : maxSeq.toNat = 2 ^ 64 - 1 := rfl
  rw [heq, hmax] at h
  omega

/-- There is room to count `n` more entries, and no anomaly is counted yet. -/
structure HasRoom (n : ℕ) (st : WalkState) : Prop where
  anomalies : st.anomaliesDetected = 0
  count : st.entriesChecked.toNat + n < 2 ^ 64

/-- The link of the next entry overflows. -/
def Stuck (st : WalkState) : Prop := st.firstEntry = false ∧ st.lastSeq = some maxSeq

theorem rejecting_run {α : Type} (h : st.anomaliesDetected = 0) (check : Except ChainVerifyResult α) :
    (rejecting st check).run = some check := by
  cases check with
  | ok a => rfl
  | error result =>
    unfold rejecting
    rw [h]
    rfl

theorem run_bind_none {α β : Type} {x : Checked α} {f : α → Checked β} (h : x.run = none) :
    (x >>= f).run = none := by
  rw [ExceptT.run_bind, h]
  rfl

theorem run_sum_bind {α β : Type} (a : α) (f : α → Checked β) : (sum (some a) >>= f).run = (f a).run :=
  rfl

/-- Checked steps that do not overflow run as the steps do. -/
theorem run_bind_some {α β : Type} {x : Checked α} {f : α → Checked β}
    {c : Except ChainVerifyResult α} {g : α → Except ChainVerifyResult β} (h : x.run = some c)
    (hf : ∀ a, (f a).run = some (g a)) : (x >>= f).run = some (c >>= g) := by
  rw [ExceptT.run_bind, h]
  cases c with
  | ok a => exact hf a
  | error result => rfl

theorem checkLinkChecked_run (h : st.anomaliesDetected = 0) :
    (checkLinkChecked e st pass).run =
      if st.lastSeq = some maxSeq then none else some (checkLink e st pass) := by
  unfold checkLinkChecked
  cases hlast : st.lastSeq with
  | none =>
    rw [if_neg nofun]
    exact rejecting_run h _
  | some prevSeq =>
    by_cases hmax : prevSeq = maxSeq
    · rw [if_pos (congrArg some hmax), hmax]
      rfl
    · rw [if_neg fun heq => hmax (Option.some.inj heq)]
      simp only [plusOne_eq hmax]
      exact rejecting_run h _

theorem checkEntryChecked_run (hroom : HasRoom (n + 1) st) :
    (Stuck st → (checkEntryChecked K key pass st e).run = none) ∧
      (¬Stuck st → (checkEntryChecked K key pass st e).run = some (checkEntry K key pass st e)) := by
  have hcount : plusOne st.entriesChecked = some (st.entriesChecked + 1) :=
    plusOne_of_lt (by have := hroom.count; omega)
  have hrejecting : ∀ {α : Type} (check : Except ChainVerifyResult α),
      (rejecting { st with entriesChecked := st.entriesChecked + 1 } check).run = some check :=
    rejecting_run hroom.anomalies
  have hrest : ∀ (prev : Blake3Hash) (next : WalkState),
      (do
        rejecting { st with entriesChecked := st.entriesChecked + 1 }
          (checkHash K e prev { st with entriesChecked := st.entriesChecked + 1 } pass)
        rejecting { st with entriesChecked := st.entriesChecked + 1 }
          (checkHmac K e key { st with entriesChecked := st.entriesChecked + 1 } pass)
        return next : Checked WalkState).run =
      some (do
        checkHash K e prev { st with entriesChecked := st.entriesChecked + 1 } pass
        checkHmac K e key { st with entriesChecked := st.entriesChecked + 1 } pass
        return next) := fun prev next =>
    run_bind_some (hrejecting _) fun _ => run_bind_some (hrejecting _) fun _ => rfl
  have hlink : (checkLinkChecked e { st with entriesChecked := st.entriesChecked + 1 } pass).run =
      if st.lastSeq = some maxSeq then none
      else some (checkLink e { st with entriesChecked := st.entriesChecked + 1 } pass) :=
    checkLinkChecked_run hroom.anomalies
  unfold Stuck checkEntryChecked checkEntry
  rw [hcount, run_sum_bind]
  cases hfirst : st.firstEntry with
  | true =>
    refine ⟨fun h => absurd h.1 (by decide), fun _ => ?_⟩
    exact hrest _ _
  | false =>
    constructor
    · rintro ⟨-, hmax⟩
      rw [if_pos hmax] at hlink
      exact run_bind_none hlink
    · intro h
      rw [if_neg fun hmax => h ⟨rfl, hmax⟩] at hlink
      exact run_bind_some hlink fun _ => hrest _ _

/-- A round that accepts leaves the next state. -/
theorem checkEntry_next (h : checkEntry K key pass st e = .ok st') : st' = nextState st e := by
  unfold checkEntry at h
  cases hfirst : st.firstEntry with
  | true =>
    simp only [hfirst, if_true, Bool.not_true, Bool.false_eq_true, if_false, check_then_ok] at h
    exact (Except.ok.inj h.2.2).symm
  | false =>
    simp only [hfirst, Bool.not_false, if_true, check_then_ok] at h
    exact (Except.ok.inj h.2.2.2).symm

theorem HasRoom.next (hroom : HasRoom (n + 1) st) (h : checkEntry K key pass st e = .ok st') :
    HasRoom n st' := by
  obtain rfl := checkEntry_next h
  have hcount := hroom.count
  refine ⟨hroom.anomalies, ?_⟩
  have hsucc : (st.entriesChecked + 1).toNat = st.entriesChecked.toNat + 1 := by
    have hone : (1 : UInt64).toNat = 1 := rfl
    rw [UInt64.toNat_add, hone, Nat.mod_eq_of_lt (by omega)]
  change (st.entriesChecked + 1).toNat + n < 2 ^ 64
  omega

end Rounds

/-! ### The walks -/

section Walks

variable {K : Crates} {key : Option Key} {pass : Pass} {es : List AuditEntry}

/-- The state after some entries holds the number of the last of them. -/
theorem walk_last : ∀ {es : List AuditEntry} {st st' : WalkState}, walk K key pass st es = .ok st' →
    es ≠ [] → ∃ before last, es = before ++ [last] ∧ st'.lastSeq = some last.seq
  | [], _, _, _, hne => absurd rfl hne
  | e :: es, st, st', h, _ => by
    obtain ⟨st₁, hcheck, hrest⟩ := walk_cons.mp h
    by_cases hes : es = []
    · subst hes
      obtain rfl := Except.ok.inj hrest
      obtain rfl := checkEntry_next hcheck
      exact ⟨[], e, rfl, rfl⟩
    · obtain ⟨before, last, rfl, hlast⟩ := walk_last hrest hes
      exact ⟨e :: before, last, rfl, hlast⟩

theorem walk_not_first : ∀ {es : List AuditEntry} {st st' : WalkState},
    walk K key pass st es = .ok st' → es ≠ [] → st'.firstEntry = false
  | [], _, _, _, hne => absurd rfl hne
  | e :: es, st, st', h, _ => by
    obtain ⟨st₁, hcheck, hrest⟩ := walk_cons.mp h
    by_cases hes : es = []
    · subst hes
      obtain rfl := Except.ok.inj hrest
      obtain rfl := checkEntry_next hcheck
      rfl
    · exact walk_not_first hrest hes

/-- The entries start with a segment that ends in the largest number, and go on. -/
def PassesTop (K : Crates) (key : Option Key) (es : List AuditEntry) : Prop :=
  ∃ before last next after, es = before ++ last :: next :: after ∧
    Segment K key (before ++ [last]) ∧ last.seq = maxSeq

/-- The walk with its sums checked, by the states it comes to. -/
theorem walkChecked_run (hlen : es.length < 2 ^ 64) :
    ((es.foldlM (checkEntryChecked K key pass) WalkState.new).run = none ↔
      ∃ before next after st, es = before ++ next :: after ∧
        walk K key pass WalkState.new before = .ok st ∧ Stuck st) ∧
    ((es.foldlM (checkEntryChecked K key pass) WalkState.new).run ≠ none →
      (es.foldlM (checkEntryChecked K key pass) WalkState.new).run =
        some (walk K key pass WalkState.new es)) := by
  have hroom : HasRoom es.length WalkState.new := by
    refine ⟨rfl, ?_⟩
    change 0 + es.length < 2 ^ 64
    omega
  exact foldlM_checked (fun n st e hst => (checkEntryChecked_run hst).1)
    (fun n st e hst => (checkEntryChecked_run hst).2)
    (fun n st e st' hst h => hst.next h) es WalkState.new hroom

/-- **A walk of its own overflows** exactly past a segment that ends in the largest number. -/
theorem walkChecked_none (hlen : es.length < 2 ^ 64) :
    (es.foldlM (checkEntryChecked K key pass) WalkState.new).run = none ↔ PassesTop K key es := by
  rw [(walkChecked_run hlen).1]
  constructor
  · rintro ⟨before, next, after, st, rfl, hwalk, hfirst, hmax⟩
    have hne : before ≠ [] := by
      rintro rfl
      obtain rfl := Except.ok.inj hwalk
      cases hfirst
    obtain ⟨front, last, rfl, hlast⟩ := walk_last hwalk hne
    rw [hlast] at hmax
    refine ⟨front, last, next, after, by simp, ?_, Option.some.inj hmax⟩
    exact (walk_new_ok key pass _).1.mp ⟨st, hwalk⟩
  · rintro ⟨before, last, next, after, rfl, hseg, hmax⟩
    obtain ⟨st, hwalk⟩ := (walk_new_ok key pass _).1.mpr hseg
    have hne : before ++ [last] ≠ [] := by simp
    obtain ⟨front, last', heq, hlast⟩ := walk_last hwalk hne
    obtain ⟨-, hsame⟩ := List.append_inj' heq rfl
    obtain rfl := List.singleton_inj.mp hsame
    refine ⟨before ++ [last], next, after, st, by simp, hwalk, walk_not_first hwalk hne, ?_⟩
    rw [hlast, hmax]

/-- A chain from genesis has counted up to its last number. -/
theorem not_stuck_of_linked {before : List AuditEntry} {st : WalkState} (hl : Linked K none before)
    (hlen : before.length < 2 ^ 63) (hst : WalkAt st (tipAfter none before)) : ¬Stuck st := by
  rintro ⟨hfirst, hmax⟩
  rcases List.eq_nil_or_concat' before with rfl | ⟨front, last, rfl⟩
  · rw [hst.first] at hfirst
    cases hfirst
  · rw [hst.lastSeq, tipAfter_concat] at hmax
    have hseq : last.seq = maxSeq := Option.some.inj hmax
    have hcount := hl.seq_toNat (hlen.trans (by decide)) front.length (by simp)
    have htop : maxSeq.toNat = 2 ^ 64 - 1 := rfl
    simp only [List.getElem_concat_length, hseq, htop] at hcount
    simp only [List.length_append, List.length_singleton] at hlen
    omega

/-- A walk from genesis does not overflow. -/
theorem walkChecked_genesis (hlen : es.length < 2 ^ 63) (log : AuditLog)
    (hanchor : checkGenesisAnchor es log pass = none) :
    (es.foldlM (checkEntryChecked K key pass) WalkState.new).run =
      some (walk K key pass WalkState.new es) := by
  obtain ⟨hnone, hsame⟩ := @walkChecked_run K key pass es (hlen.trans (by decide))
  refine hsame (hnone.not.mpr ?_)
  rintro ⟨before, next, after, st, rfl, hwalk, hstuck⟩
  have hfirst : ∀ e, before.head? = some e → Anchored none e := by
    intro e he _
    refine (checkGenesisAnchor_none log pass).mp hanchor e ?_
    rw [List.head?_append, he]
    rfl
  obtain ⟨hiff, hwalked⟩ := walk_ok K key pass before WalkAt.new hfirst
  rw [List.length_append] at hlen
  exact not_stuck_of_linked (hiff.mp ⟨st, hwalk⟩).1 (by omega) (hwalked st hwalk).at_tip hstuck

end Walks

/-! ### Passes from a baseline -/

section BaselineRounds

variable {K : Crates} {baseline : AuditBaseline} {key : Key} {pass : Pass} {st st' : BaselineState}
  {e : AuditEntry} {n : ℕ}

/-- Both counters of the pass have room. -/
structure BaselineRoom (n : ℕ) (st : BaselineState) : Prop where
  walk : HasRoom n st.walk
  quarantined : st.quarantinedBelow.toNat + n < 2 ^ 64

theorem checkFromBaselineChecked_run (hroom : BaselineRoom (n + 1) st) :
    (Stuck st.walk → (checkFromBaselineChecked K baseline key pass st e).run = none) ∧
      (¬Stuck st.walk → (checkFromBaselineChecked K baseline key pass st e).run =
        some (checkFromBaseline K baseline key pass st e)) := by
  obtain ⟨hstuck, hfree⟩ :=
    @checkEntryChecked_run K (keyFrom baseline key e) pass st.walk e n hroom.walk
  have hcount : plusOne st.quarantinedBelow = some (st.quarantinedBelow + 1) :=
    plusOne_of_lt (by have := hroom.quarantined; omega)
  refine ⟨fun h => run_bind_none (hstuck h), fun h => run_bind_some (hfree h) fun walk => ?_⟩
  by_cases hbelow : baseline.baselineSeq ≤ e.seq
  · simp only [if_pos hbelow]
    rfl
  · simp only [if_neg hbelow, hcount]
    rfl

theorem BaselineRoom.next (hroom : BaselineRoom (n + 1) st)
    (h : checkFromBaseline K baseline key pass st e = .ok st') : BaselineRoom n st' := by
  unfold checkFromBaseline at h
  cases hcheck : checkEntry K (keyFrom baseline key e) pass st.walk e with
  | error result =>
    rw [hcheck] at h
    cases h
  | ok walk =>
    rw [hcheck] at h
    obtain rfl := Except.ok.inj h
    have hcount := hroom.quarantined
    refine ⟨hroom.walk.next hcheck, ?_⟩
    have hsucc : (st.quarantinedBelow + 1).toNat = st.quarantinedBelow.toNat + 1 := by
      have hone : (1 : UInt64).toNat = 1 := rfl
      rw [UInt64.toNat_add, hone, Nat.mod_eq_of_lt (by omega)]
    dsimp only
    split_ifs <;> omega

/-- A pass from a baseline does not overflow. -/
theorem walkFromBaselineChecked_eq {log : AuditLog} (hlen : log.entries.length < 2 ^ 63)
    (h : PinnedHead) (now : Rfc3339Timestamp) : walkFromBaselineChecked K log h baseline key now =
      some (walkFromBaseline K log h baseline key now) := by
  have hslice : sliceEntries log none none = log.entries := rfl
  unfold walkFromBaselineChecked walkFromBaseline
  rw [hslice]
  cases hanchor : checkGenesisAnchor log.entries log (Pass.full now) with
  | some result => simp only [hanchor]
  | none =>
    have hfirst : ∀ before after, log.entries = before ++ after →
        ∀ e, before.head? = some e → Anchored none e := by
      intro before after heq e he _
      refine (checkGenesisAnchor_none log _).mp hanchor e ?_
      rw [heq, List.head?_append, he]
      rfl
    have hpass : ∀ before after, log.entries = before ++ after → _ := fun before after heq =>
      foldFromBaseline_ok K baseline key (Pass.full now) before none BaselineState.new WalkAt.new
        (hfirst before after heq)
    have hroom : BaselineRoom log.entries.length BaselineState.new := by
      refine ⟨⟨rfl, ?_⟩, ?_⟩ <;>
      · change 0 + log.entries.length < 2 ^ 64
        omega
    obtain ⟨hnone, hsame⟩ := foldlM_checked
      (fun n st e hst => (checkFromBaselineChecked_run hst).1)
      (fun n st e hst => (checkFromBaselineChecked_run hst).2)
      (fun n st e st' hst h => hst.next h) log.entries BaselineState.new hroom
    have hrun := hsame <| hnone.not.mpr <| by
      rintro ⟨before, next, after, st, heq, hfold, hstuck⟩
      obtain ⟨hiff, hpassed⟩ := hpass before (next :: after) heq
      rw [heq, List.length_append] at hlen
      exact not_stuck_of_linked (hiff.mp ⟨st, hfold⟩).1 (by omega) (hpassed st hfold).walked.at_tip
        hstuck
    simp only [hanchor, hrun]
    cases hfold : log.entries.foldlM (checkFromBaseline K baseline key (Pass.full now))
        BaselineState.new with
    | error result => rfl
    | ok st =>
      have hzero : st.walk.anomaliesDetected = 0 :=
        ((hpass log.entries [] (List.append_nil _).symm).2 st hfold).walked.anomaliesDetected
      by_cases hanchored : st.anchorOk = true
      · simp only [hanchored, Bool.not_true, Bool.false_eq_true, if_false, hzero]
        cases checkHeadCommitment K st.walk h (some key) (Pass.full now) <;> rfl
      · simp only [hanchored, Bool.not_false, if_true, hzero]
        rfl

end BaselineRounds

/-! ### The passes -/

section Passes

variable {K : Crates}

theorem length_takeThrough_le (endId : AuditEntryId) :
    ∀ es : List AuditEntry, (takeThrough endId es).length ≤ es.length
  | [] => Nat.le_refl 0
  | e :: es => by
    unfold takeThrough
    have ih := length_takeThrough_le endId es
    by_cases h : e.id = endId
    · rw [if_pos h]
      simp
    · rw [if_neg h]
      simpa using ih

theorem length_sliceEntries_le (log : AuditLog) (fromId toId : Option AuditEntryId) :
    (sliceEntries log fromId toId).length ≤ log.entries.length := by
  have hdrop : ∀ p : AuditEntry → Bool, (log.entries.dropWhile p).length ≤ log.entries.length :=
    fun p => (List.dropWhile_sublist p).length_le
  rcases fromId with - | startId <;> rcases toId with - | endId
  · exact Nat.le_refl _
  · exact length_takeThrough_le endId _
  · exact hdrop _
  · exact (length_takeThrough_le endId _).trans (hdrop _)

variable {log : AuditLog} (h : PinnedHead) {fromId toId : Option AuditEntryId} {hmacKey : List UInt8}
  (now : Rfc3339Timestamp)

/-- A pass without bounds does not overflow. -/
theorem verifyRangeChecked_unbounded (hlen : log.entries.length < 2 ^ 63) :
    verifyRangeChecked K log h none none hmacKey now = some (verifyRange K log h none none hmacKey now) := by
  unfold verifyRangeChecked verifyRange
  cases hkey : keyDiscipline hmacKey with
  | none => rfl
  | some key =>
    have hslice : sliceEntries log none none = log.entries := rfl
    simp only [hslice, Option.isSome_none, Bool.false_eq_true, or_self, and_false, if_false]
    unfold verifySliceChecked verifySlice
    simp only [Option.isNone_none, Bool.and_self, if_true]
    cases hanchor : checkGenesisAnchor log.entries log ⟨none, none, now⟩ with
    | some result => rfl
    | none =>
      have hrun := @walkChecked_genesis K key ⟨none, none, now⟩ _ hlen log hanchor
      simp only [hrun]
      cases hwalk : walk K key ⟨none, none, now⟩ WalkState.new log.entries with
      | error result => rfl
      | ok st =>
        have hfirst : ∀ e, log.entries.head? = some e → Anchored none e := fun e he _ =>
          (checkGenesisAnchor_none log _).mp hanchor e he
        have hzero : st.anomaliesDetected = 0 :=
          ((walk_ok K key _ log.entries WalkAt.new hfirst).2 st hwalk).anomaliesDetected
        simp only [hzero]
        cases checkHeadCommitment K st h key ⟨none, none, now⟩ <;> rfl

/-- **A pass between bounds overflows** exactly past a segment that ends in the largest number. -/
theorem verifyRangeChecked_none (hlen : log.entries.length < 2 ^ 63)
    (hbound : fromId.isSome ∨ toId.isSome) :
    (verifyRangeChecked K log h fromId toId hmacKey now = none ↔
      ∃ key, keyDiscipline hmacKey = some key ∧ PassesTop K key (sliceEntries log fromId toId)) ∧
    (verifyRangeChecked K log h fromId toId hmacKey now ≠ none →
      verifyRangeChecked K log h fromId toId hmacKey now =
        some (verifyRange K log h fromId toId hmacKey now)) := by
  have hfull : (fromId.isNone && toId.isNone) = false := by
    rcases hbound with hb | hb <;> simp [Option.isNone_eq_false_iff.mpr hb]
  have hslice : (sliceEntries log fromId toId).length < 2 ^ 64 := by
    have := length_sliceEntries_le log fromId toId
    omega
  unfold verifyRangeChecked verifyRange
  cases hkey : keyDiscipline hmacKey with
  | none =>
    refine ⟨iff_of_false (by simp) ?_, fun _ => rfl⟩
    rintro ⟨key, hk, -⟩
    cases hk
  | some key =>
    simp only [Option.some.injEq, exists_eq_left']
    by_cases hempty : sliceEntries log fromId toId = []
    · simp only [if_pos (show _ ∧ _ from ⟨hempty, hbound⟩)]
      refine ⟨iff_of_false (by simp) ?_, by simp⟩
      rintro ⟨before, last, next, after, heq, -⟩
      rw [hempty] at heq
      simp at heq
    · simp only [if_neg fun hc : _ ∧ _ => hempty hc.1]
      unfold verifySliceChecked verifySlice
      simp only [hfull, Bool.false_eq_true, if_false]
      rw [← @walkChecked_none K key ⟨fromId, toId, now⟩ _ hslice]
      have hrun := (@walkChecked_run K key ⟨fromId, toId, now⟩ _ hslice).2
      cases hwalk : ((sliceEntries log fromId toId).foldlM (checkEntryChecked K key ⟨fromId, toId, now⟩)
          WalkState.new).run with
      | none => exact ⟨by simp, fun hne => absurd rfl hne⟩
      | some result =>
        rw [hwalk] at hrun
        have hresult := Option.some.inj (hrun (by simp))
        rw [← hresult]
        cases result <;> exact ⟨iff_of_false (by simp) (by simp), fun _ => rfl⟩

theorem verifyFromBaselineChecked_eq (hlen : log.entries.length < 2 ^ 63) (baseline : AuditBaseline) :
    verifyFromBaselineChecked K log h baseline hmacKey now =
      some (verifyFromBaseline K log h baseline hmacKey now) := by
  unfold verifyFromBaselineChecked verifyFromBaseline
  cases keyOfSlice hmacKey with
  | none => rfl
  | some key =>
    by_cases hmac : baseline.verifyMac K key = true
    · simp only [hmac, Bool.not_true, Bool.false_eq_true, if_false]
      exact walkFromBaselineChecked_eq hlen h now
    · simp only [hmac, Bool.not_false, if_true]

end Passes

/-- The entries of a vector: an allocation has less than `isize::MAX` bytes. -/
structure EntryVec where
  entries : List AuditEntry
  length_lt : entries.length < 2 ^ 63

/-- **The passes overflow** exactly if bounds are given and, with the key that the slice stands for,
the entries between them go past a segment that ends in the largest number. -/
theorem verify_overflows_iff (K : Crates) (es : EntryVec) (h : PinnedHead) (baseline : AuditBaseline)
    (fromId toId : Option AuditEntryId) (hmacKey : List UInt8) (now : Rfc3339Timestamp) :
    (verifyFullChecked K (AuditLog.fromPersisted es.entries) h hmacKey now =
        some (verifyFull K (AuditLog.fromPersisted es.entries) h hmacKey now) ∧
      verifyRangeChecked K (AuditLog.fromPersisted es.entries) h fromId toId hmacKey now =
        some (verifyRange K (AuditLog.fromPersisted es.entries) h fromId toId hmacKey now) ∧
      verifyFromBaselineChecked K (AuditLog.fromPersisted es.entries) h baseline hmacKey now =
        some (verifyFromBaseline K (AuditLog.fromPersisted es.entries) h baseline hmacKey now)) ↔
    ((fromId.isSome ∨ toId.isSome) → ∀ key, keyDiscipline hmacKey = some key →
      ¬PassesTop K key (sliceEntries (AuditLog.fromPersisted es.entries) fromId toId)) := by
  have hfull := @verifyRangeChecked_unbounded K (AuditLog.fromPersisted es.entries) h hmacKey now
    es.length_lt
  have hbaseline := @verifyFromBaselineChecked_eq K (AuditLog.fromPersisted es.entries) h hmacKey now
    es.length_lt baseline
  by_cases hbound : fromId.isSome ∨ toId.isSome
  · obtain ⟨hnone, hsame⟩ := @verifyRangeChecked_none K (AuditLog.fromPersisted es.entries) h fromId
      toId hmacKey now es.length_lt hbound
    constructor
    · rintro ⟨-, hrange, -⟩ _ key hkey htop
      have := hnone.mpr ⟨key, hkey, htop⟩
      rw [hrange] at this
      cases this
    · intro hno
      refine ⟨hfull, hsame fun heq => ?_, hbaseline⟩
      obtain ⟨key, hkey, htop⟩ := hnone.mp heq
      exact hno hbound key hkey htop
  · refine iff_of_true ⟨hfull, ?_, hbaseline⟩ fun hb => absurd hb hbound
    cases fromId with
    | some _ => exact absurd (Or.inl rfl) hbound
    | none =>
      cases toId with
      | some _ => exact absurd (Or.inr rfl) hbound
      | none => exact hfull

/-- An entry with the largest number, hashed, and any entry after it: the pass from the first overflows
in the link of the second. -/
theorem largest_number_overflows : ∃ e f : AuditEntry, e.seq = maxSeq ∧
    verifyRangeChecked sampleCrates (AuditLog.fromPersisted [e, f])
      (PinnedHead.new genesis 0 e.id epoch) (some e.id) none [] epoch = none := by
  let e : AuditEntry := { sampleEntry epoch with seq := maxSeq }
  obtain ⟨bs, hbs⟩ := exists_canonicalBytes sampleCrates e genesis
  let e' : AuditEntry := { e with currentHash := sampleCrates.hash bs }
  let f : AuditEntry := sampleEntry epoch
  refine ⟨e', f, rfl, ?_⟩
  refine (@verifyRangeChecked_none sampleCrates _ _ (some e'.id) none [] epoch
    (by simp [AuditLog.fromPersisted]) (Or.inl rfl)).1.mpr ⟨none, rfl, [], e', f, [], ?_, ?_, rfl⟩
  · have hdrop : List.dropWhile (fun g : AuditEntry => g.id ≠ e'.id) [e', f] = [e', f] :=
      List.dropWhile_cons_of_neg (by simp)
    exact hdrop
  · exact ⟨⟨bs, hbs, rfl⟩, trivial, fun g _ key hkey => by cases hkey⟩

end MerkleVault.Audit.Overflow
