import MerkleVault.Sqlite.Retention

/-! # The History of a Secret

`rotate` and `rollback_to` change the aggregate in place.  Here they are written in the order of their
statements, over the aggregate as a state that an early return leaves as it is at that point, and a
sequence of calls is followed from the secret that `Secret::new` builds.

* `call_outcome`: the statements compute what `Secret.rotate` does, or leave the aggregate;
* `call_answered`: what one call leaves;
* `history_kept`: the invariant of the aggregate along every sequence of calls. -/

namespace MerkleVault.Secrets.History

open MerkleVault.Types MerkleVault.Secrets.Aggregate MerkleVault.Sqlite.Versions
open MerkleVault.Sqlite.Retention

/-! ### The methods -/

/-- What ends a method early: an error that it returns, or a panic. -/
inductive Stop
  | failed (e : DomainError)
  | panicked
deriving DecidableEq

/-- A method that changes the aggregate. -/
abbrev Mutation (α : Type) := ExceptT Stop (StateM Secret) α

/-- What a method returns, and the aggregate that it leaves. -/
def outcome {α : Type} (m : Mutation α) (s : Secret) : Except Stop α × Secret := (m.run.run s).run

/-- `rotate`, as the source mutates the aggregate. -/
def rotate (newVersion : SecretVersion) (policy : RetentionPolicy) (now : Rfc3339Timestamp) :
    Mutation SecretVersion := do
  let currentMax := maxVersionNo (← get).versions
  if newVersion.versionNo ≤ currentMax then
    throw (.failed (.nonMonotonicVersionNumber currentMax newVersion.versionNo))
  let oldId := (← get).currentVersionId
  if (← get).versions.any (fun v => v.id = oldId) then
    modify fun s => { s with versions := deprecateFirst oldId now s.versions }
  else
    throw (.failed (.currentVersionNotFound oldId))
  modify fun s => { s with versions := s.versions ++ [newVersion] }
  modify fun s => { s with currentVersionId := newVersion.id }
  modify fun s => { s with versions := retentionApply policy.retainCount.toNat s.versions }
  match (← get).versions.find? (fun v => v.id = newVersion.id) with
  | some v => return v
  | none => throw .panicked  -- `expect("just pushed; must be present")`

/-- `rollback_to`, as the source mutates the aggregate. -/
def rollbackTo (targetVersionNo : UInt32) (policy : RetentionPolicy) (fresh : Fresh) :
    Mutation SecretVersion := do
  match (← get).versions.find? (fun v => v.versionNo = targetVersionNo) with
  | none => throw (.failed (.targetVersionNotFound targetVersionNo))
  | some target =>
    -- `current_max + 1` overflows
    if maxVersionNo (← get).versions = UInt32.ofNat (2 ^ 32 - 1) then
      throw .panicked
    rotate (rollbackVersion (← get) target fresh) policy fresh.now

/-- A call of one of the two. -/
def call : VersionOp → Mutation SecretVersion
  | .rotate newVersion policy now => rotate newVersion policy now
  | .rollbackTo targetVersionNo policy fresh => rollbackTo targetVersionNo policy fresh

/-! ### The invariant -/

/-- The invariant of an aggregate whose last rotation or rollback retained `n` versions. -/
structure Invariant (n : Nat) (s : Secret) : Prop where
  nonempty : s.versions ≠ []
  increasing : s.versions.Pairwise fun a b => a.versionNo < b.versionNo
  ids : (s.versions.map (·.id)).Nodup
  bounded : s.versions.length ≤ max 1 n
  newest : ∃ v ∈ s.versions, s.currentVersion = some v ∧ ∀ w ∈ s.versions, w.versionNo ≤ v.versionNo
  sole : ∀ w ∈ s.versions, w.deprecatedAt = none ↔ w.id = s.currentVersionId

/-- A call that can be made: its version is new and active, and version numbers are left. -/
structure Admissible (s : Secret) (op : VersionOp) : Prop where
  fresh : op.versionId ∉ s.versions.map (·.id)
  active : ∀ v policy now, op = .rotate v policy now → v.isActive = true
  below : ∀ v ∈ s.versions, v.versionNo < UInt32.ofNat (2 ^ 32 - 1)

/-- The retention count of the last call that succeeded, after one more call. -/
def retained (n : Nat) (op : VersionOp) : Except Stop SecretVersion → Nat
  | .ok _ => op.policy.retainCount.toNat
  | .error _ => n

/-- The aggregates that sequences of calls reach, each with the last successful retention count. -/
inductive Reaches (s₀ : Secret) : Nat → Secret → Prop
  | new : Reaches s₀ 0 s₀
  | call {n : Nat} {s s' : Secret} {op : VersionOp} {answer : Except Stop SecretVersion}
      (h : Reaches s₀ n s) (hop : Admissible s op) (hrun : outcome (call op) s = (answer, s')) :
      Reaches s₀ (retained n op answer) s'

/-- The version of a rollback holds what its target held. -/
def Copies (s : Secret) (op : VersionOp) (v : SecretVersion) : Prop :=
  ∀ t policy fresh, op = .rollbackTo t policy fresh →
    ∃ target ∈ s.versions, target.versionNo = t ∧ v.blob = target.blob ∧ v.dekVersion = target.dekVersion

/-- What a call returns and leaves. -/
inductive Answered (s : Secret) (op : VersionOp) : Except Stop SecretVersion → Secret → Prop
  | failed (e : DomainError) : Answered s op (.error (.failed e)) s
  | succeeded {v : SecretVersion} {s' : Secret} (now : Rfc3339Timestamp)
      (hversions : s'.versions = (s.versions.drop
        (s.versions.length + 1 - op.policy.retainCount.toNat)).map (retire s.currentVersionId now) ++ [v])
      (hnew : v.id ∉ s.versions.map (·.id)) (hcurrent : s'.currentVersion = some v)
      (hlength : s'.versions.length ≤ op.policy.retainCount.toNat) (hcopy : Copies s op v) :
      Answered s op (.ok v) s'

/-- Everything but the versions is kept. -/
def SameRecord (s₀ s : Secret) : Prop :=
  s = { s₀ with versions := s.versions, currentVersionId := s.currentVersionId }

/-! ### The methods compute the rotation -/

section Outcome

variable {α β : Type} (s : Secret)

@[simp] theorem outcome_pure (a : α) : outcome (pure a) s = (.ok a, s) := rfl

@[simp] theorem outcome_throw (e : Stop) : outcome (throw e : Mutation α) s = (.error e, s) := rfl

@[simp] theorem outcome_get : outcome get s = (.ok s, s) := rfl

@[simp] theorem outcome_modify (f : Secret → Secret) : outcome (modify f) s = (.ok (), f s) := rfl

@[simp] theorem outcome_bind (m : Mutation α) (k : α → Mutation β) : outcome (m >>= k) s =
    match outcome m s with
    | (.ok a, s') => outcome (k a) s'
    | (.error e, s') => (.error e, s') := by
  have hrun : outcome (m >>= k) s =
      (ExceptT.bindCont k (outcome m s).1).run (outcome m s).2 := rfl
  rw [hrun]
  rcases outcome m s with ⟨answer | answer, s'⟩ <;> rfl

end Outcome

/-- A rotation returns the version under the new identifier, or leaves the aggregate. -/
theorem rotate_outcome (s : Secret) (new : SecretVersion) (policy : RetentionPolicy)
    (now : Rfc3339Timestamp) : outcome (rotate new policy now) s =
      match s.rotate new policy.retainCount.toNat now with
      | .error e => (.error (.failed e), s)
      | .ok s' => ((s'.versions.find? fun v => v.id = new.id).elim (.error .panicked) .ok, s') := by
  unfold rotate Secret.rotate
  by_cases hmax : new.versionNo ≤ maxVersionNo s.versions
  · simp [hmax]
  · by_cases hcur : ∃ v ∈ s.versions, v.id = s.currentVersionId
    · simp only [hmax, hcur, outcome_bind, outcome_get, outcome_modify, if_true, if_false,
        List.any_eq_true, decide_eq_true_eq, Bool.not_eq_true', Bool.eq_false_iff, ne_eq, not_true]
      split <;> simp [*]
    · simp only [hmax, hcur, outcome_bind, outcome_get, outcome_throw, if_true, if_false,
        List.any_eq_true, decide_eq_true_eq, Bool.not_eq_true', Bool.eq_false_iff, ne_eq,
        not_false_eq_true]

theorem maxVersionNo_lt {vs : List SecretVersion} {n : UInt32} (hn : 0 < n)
    (h : ∀ v ∈ vs, v.versionNo < n) : maxVersionNo vs < n := by
  have hfold : ∀ (vs : List SecretVersion) (m : UInt32), m < n → (∀ v ∈ vs, v.versionNo < n) →
      vs.foldl (fun m v => max m v.versionNo) m < n := by
    intro vs
    induction vs with
    | nil => exact fun m hm _ => hm
    | cons v vs ih =>
      intro m hm hvs
      refine ih _ ?_ fun w hw => hvs w (List.mem_cons_of_mem _ hw)
      show (if m ≤ v.versionNo then v.versionNo else m) < n
      split_ifs
      · exact hvs v List.mem_cons_self
      · exact hm
  exact hfold vs 0 hn h

/-- What a call does, by the aggregate that the operation computes. -/
theorem call_outcome {s : Secret} {op : VersionOp} (hop : Admissible s op) : outcome (call op) s =
    match op.apply s with
    | .error e => (.error (.failed e), s)
    | .ok s' => ((s'.versions.find? fun v => v.id = op.versionId).elim (.error .panicked) .ok, s') := by
  cases op with
  | rotate new policy now => exact rotate_outcome s new policy now
  | rollbackTo t policy fresh =>
    have hmax : maxVersionNo s.versions ≠ UInt32.ofNat (2 ^ 32 - 1) :=
      UInt32.ne_of_lt (maxVersionNo_lt (by decide) hop.below)
    rw [call, rollbackTo, VersionOp.apply, Secret.rollbackTo, outcome_bind, outcome_get]
    cases hfind : s.versions.find? fun v => v.versionNo = t with
    | none => simp only [hfind, outcome_throw]
    | some target =>
      simp only [hfind, hmax, if_false, outcome_bind, outcome_get]
      exact rotate_outcome s (rollbackVersion s target fresh) policy fresh.now

/-! ### One call -/

/-- An operation that goes through rotates to a new active version. -/
theorem apply_rotates {s s' : Secret} {op : VersionOp} (hop : Admissible s op)
    (h : op.apply s = .ok s') : ∃ new now, new.id = op.versionId ∧ new.isActive = true ∧
      Copies s op new ∧ s.rotate new op.policy.retainCount.toNat now = .ok s' := by
  cases op with
  | rotate new policy now => exact ⟨new, now, rfl, hop.active new policy now rfl, nofun, h⟩
  | rollbackTo t policy fresh =>
    simp only [VersionOp.apply, Secret.rollbackTo] at h
    split at h
    · cases h
    · next target hfind =>
      refine ⟨rollbackVersion s target fresh, fresh.now, rfl, rfl, ?_, h⟩
      intro t' policy' fresh' he
      obtain ⟨rfl, -, -⟩ := VersionOp.rollbackTo.inj he
      exact ⟨target, List.mem_of_find?_eq_some hfind, by simpa using List.find?_some hfind, rfl, rfl⟩

/-- **The aggregate after a rotation**: the retained versions deprecated, the new one last. -/
theorem Invariant.rotated {n k : Nat} {s s' : Secret} {new : SecretVersion} {now : Rfc3339Timestamp}
    (h : Invariant n s) (hk : 0 < k) (hnew : new.id ∉ s.versions.map (·.id))
    (hactive : new.isActive = true) (hrot : s.rotate new k now = .ok s') :
    Invariant k s' ∧ s'.currentVersion = some new ∧ SameRecord s s' ∧
      s'.versions = (s.versions.drop (s.versions.length + 1 - k)).map (retire s.currentVersionId now) ++
        [new] := by
  have hsorted : s.versions.Pairwise fun a b => a.versionNo ≤ b.versionNo :=
    h.increasing.imp fun hlt => UInt32.le_of_lt hlt
  obtain ⟨hmax, -, rfl⟩ := rotate_sorted hk hsorted h.ids hrot
  have hlower : ∀ w ∈ (s.versions.drop (s.versions.length + 1 - k)).map (retire s.currentVersionId now),
      w.versionNo < new.versionNo ∧ w.id ≠ new.id ∧ w.isActive = false := by
    intro w hw
    obtain ⟨v, hv, rfl⟩ := List.mem_map.mp hw
    have hmem : v ∈ s.versions := List.mem_of_mem_drop hv
    refine ⟨?_, ?_, retire_inactive ?_⟩
    · rw [retire_versionNo]
      exact UInt32.lt_of_le_of_lt (le_maxVersionNo hmem) hmax
    · rw [retire_id]
      exact fun he => hnew (he ▸ List.mem_map_of_mem hmem)
    · by_cases hcur : v.id = s.currentVersionId
      · exact .inr hcur
      · refine .inl (Option.isNone_eq_false_iff.mpr (Option.isSome_iff_ne_none.mpr ?_))
        exact fun hnone => hcur ((h.sole v hmem).mp hnone)
  have hids : (((s.versions.drop (s.versions.length + 1 - k)).map (retire s.currentVersionId now) ++
      [new]).map (·.id)).Nodup := by
    have hsame : ((s.versions.drop (s.versions.length + 1 - k)).map
        (retire s.currentVersionId now)).map (·.id) =
        (s.versions.drop (s.versions.length + 1 - k)).map (·.id) := by
      rw [List.map_map]
      exact List.map_congr_left fun v _ => retire_id _ _ v
    have hsub := (List.drop_sublist (s.versions.length + 1 - k) s.versions).map (·.id)
    rw [List.map_append, hsame, List.map_singleton, ← List.concat_eq_append, List.nodup_concat]
    exact ⟨fun hmem => hnew (hsub.subset hmem), h.ids.sublist hsub⟩
  have hcurrent : Secret.currentVersion { s with
      versions := (s.versions.drop (s.versions.length + 1 - k)).map (retire s.currentVersionId now) ++
        [new]
      currentVersionId := new.id } = some new :=
    find?_of_nodup hids (by simp)
  refine ⟨⟨by simp, ?_, hids, ?_, ⟨new, by simp, hcurrent, ?_⟩, ?_⟩, hcurrent, rfl, rfl⟩
  · refine List.pairwise_append.mpr ⟨?_, List.pairwise_singleton _ _, ?_⟩
    · rw [List.pairwise_map]
      simpa using h.increasing.sublist (List.drop_sublist _ _)
    · intro a ha b hb
      rw [List.mem_singleton.mp hb]
      exact (hlower a ha).1
  · rw [List.length_append, List.length_map, List.length_drop, List.length_singleton]
    omega
  · intro w hw
    rcases List.mem_append.mp hw with hw | hw
    · exact UInt32.le_of_lt (hlower w hw).1
    · rw [List.mem_singleton.mp hw]
      exact UInt32.le_refl _
  · intro w hw
    rcases List.mem_append.mp hw with hw | hw
    · refine iff_of_false (fun hnone => ?_) (hlower w hw).2.1
      have hinactive := (hlower w hw).2.2
      rw [SecretVersion.isActive, hnone] at hinactive
      cases hinactive
    · rw [List.mem_singleton.mp hw]
      exact iff_of_true (Option.isNone_iff_eq_none.mp hactive) rfl

/-- **What one call leaves**: the aggregate as it was, or the next one of its history. -/
theorem call_answered {n : Nat} {s s' : Secret} {op : VersionOp} {answer : Except Stop SecretVersion}
    (h : Invariant n s) (hop : Admissible s op) (hrun : outcome (call op) s = (answer, s')) :
    Answered s op answer s' ∧ Invariant (retained n op answer) s' ∧ SameRecord s s' := by
  rw [call_outcome hop] at hrun
  cases happly : op.apply s with
  | error e =>
    rw [happly] at hrun
    obtain ⟨rfl, rfl⟩ := Prod.mk.inj hrun
    exact ⟨.failed e, h, rfl⟩
  | ok s₁ =>
    obtain ⟨new, now, hid, hactive, hcopy, hrot⟩ := apply_rotates hop happly
    have hfresh := hop.fresh
    rw [← hid] at hfresh
    obtain ⟨hinv, hcurrent, hsame, hversions⟩ := h.rotated op.policy.valid hfresh hactive hrot
    have hcur : s₁.currentVersionId = new.id := by
      have hfind := List.find?_some hcurrent
      exact (of_decide_eq_true hfind).symm
    have hfind : (s₁.versions.find? fun v => v.id = op.versionId) = some new := by
      rw [← hid, ← hcur]
      exact hcurrent
    simp only [happly, hfind, Option.elim_some] at hrun
    obtain ⟨rfl, rfl⟩ := Prod.mk.inj hrun
    have hlength : s₁.versions.length ≤ op.policy.retainCount.toNat := by
      have := hinv.bounded
      have := op.policy.valid
      omega
    exact ⟨.succeeded now hversions hfresh hcurrent hlength hcopy, hinv, hsame⟩

/-! ### Sequences of calls -/

/-- The invariant of a new secret. -/
theorem Invariant.new {namespaceId : NamespaceId} {handle : Handle} {category : CategoryName}
    {sensitivity : Sensitivity} {tags : List Tag} {publicMetadata : PublicMetadata}
    {initialVersion : SecretVersion} {fresh : Fresh} {s : Secret}
    (hnew : Secret.new namespaceId handle category sensitivity tags publicMetadata initialVersion fresh =
      .ok s) (hactive : initialVersion.isActive = true) : Invariant 0 s := by
  obtain rfl := secretNew_ok hnew
  have hnone : initialVersion.deprecatedAt = none := Option.isNone_iff_eq_none.mp hactive
  exact {
    nonempty := by simp
    increasing := List.pairwise_singleton _ _
    ids := List.nodup_singleton _
    bounded := by simp
    newest := ⟨initialVersion, by simp, by simp [Secret.currentVersion], by simp⟩
    sole := by simp [hnone] }

/-- **The history of a secret**: the invariant holds after every sequence of calls, each of which
either fails and changes nothing or appends the version it returns. -/
theorem history_kept {namespaceId : NamespaceId} {handle : Handle} {category : CategoryName}
    {sensitivity : Sensitivity} {tags : List Tag} {publicMetadata : PublicMetadata}
    {initialVersion : SecretVersion} {fresh : Fresh} {s₀ s : Secret} {n : Nat}
    (hnew : Secret.new namespaceId handle category sensitivity tags publicMetadata initialVersion fresh =
      .ok s₀) (hactive : initialVersion.isActive = true) (h : Reaches s₀ n s) :
    Invariant n s ∧ SameRecord s₀ s ∧ ∀ op answer s', Admissible s op →
      outcome (call op) s = (answer, s') → Answered s op answer s' := by
  have hinv : Invariant n s ∧ SameRecord s₀ s := by
    induction h with
    | new => exact ⟨.new hnew hactive, rfl⟩
    | call _ hop hrun ih =>
      obtain ⟨-, hinv, hsame⟩ := call_answered ih.1 hop hrun
      refine ⟨hinv, ?_⟩
      rw [SameRecord, ih.2] at hsame
      exact hsame
  exact ⟨hinv.1, hinv.2, fun op answer s' hop hrun => (call_answered hinv.1 hop hrun).1⟩

/-! ### A rotation and a rollback -/

/-- A first version. -/
def sampleInitial : SecretVersion := sampleNumber 1 none

/-- A fresh secret with it. -/
def sampleNew : Secret where
  id := ⟨Vector.replicate 16 0xa0⟩
  namespaceId := ⟨Vector.replicate 16 0xb0⟩
  handle := sampleThree.handle
  category := .database
  sensitivity := .low
  tags := []
  publicMetadata := ⟨none, false⟩
  createdAt := sampleTime
  versions := [sampleInitial]
  currentVersionId := sampleInitial.id

/-- The id of a later version, and its time. -/
def sampleFresh : Fresh := ⟨⟨Vector.replicate 16 0xa0⟩, ⟨Vector.replicate 16 3⟩, sampleTime⟩

/-- A rotation, then a rollback to the first version. -/
def sampleCalls : List VersionOp :=
  [.rotate (sampleNumber 2 none) ⟨3, by decide⟩ sampleTime, .rollbackTo 1 ⟨3, by decide⟩ sampleFresh]

/-- The secret after both calls. -/
def sampleRolledBack : Secret := runInMemory sampleNew sampleCalls

theorem sample_reached : Reaches sampleNew 3 sampleRolledBack := by
  have hrotate : Admissible sampleNew (.rotate (sampleNumber 2 none) ⟨3, by decide⟩ sampleTime) := by
    refine ⟨by decide, fun v policy now he => ?_, by decide⟩
    obtain ⟨rfl, -, -⟩ := VersionOp.rotate.inj he
    rfl
  have hrotated : Reaches sampleNew 3 (runInMemory sampleNew (sampleCalls.take 1)) :=
    @Reaches.call _ _ _ _ _ (.ok (sampleNumber 2 none)) .new hrotate rfl
  have hrollback : Admissible (runInMemory sampleNew (sampleCalls.take 1))
      (.rollbackTo 1 ⟨3, by decide⟩ sampleFresh) := ⟨by decide, nofun, by decide⟩
  exact @Reaches.call _ _ _ _ _ (.ok _) hrotated hrollback rfl

theorem sample_new : Secret.new sampleNew.namespaceId sampleNew.handle .database .low []
    ⟨none, false⟩ sampleInitial sampleFresh = .ok sampleNew := rfl

theorem rolled_back_history : sampleRolledBack.versions.map (·.versionNo) = [1, 2, 3] ∧
    Invariant 3 sampleRolledBack ∧ SameRecord sampleNew sampleRolledBack ∧
    ∀ op answer s', Admissible sampleRolledBack op →
      outcome (call op) sampleRolledBack = (answer, s') → Answered sampleRolledBack op answer s' :=
  ⟨rfl, history_kept sample_new rfl sample_reached⟩

end MerkleVault.Secrets.History
