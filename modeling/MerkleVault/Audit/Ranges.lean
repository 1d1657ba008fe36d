import MerkleVault.Audit.Integrity

/-! # Verification of Sub-Ranges

A pass between two bounds starts in the middle of the chain, from the first entry's own `prev_hash`,
and looks at neither genesis nor the head.  `Segment` is what it decides; pieces of a linked chain are
segments, and segments that share an entry make one.

* `verifyRange_intact_iff`: a bounded pass is intact exactly on segments;
* `verifyRange_composes`: an intact log has intact sub-ranges, and intact sub-ranges that meet in an
  entry are one. -/

namespace MerkleVault.Audit.Ranges

open MerkleVault.Types MerkleVault.External MerkleVault.Audit.Entry MerkleVault.Audit.Writer
open MerkleVault.Audit.Verifier MerkleVault.Audit.Chain MerkleVault.Audit.Integrity

variable {K : Crates}

/-! ### Segments -/

/-- The entries follow one another, the first from the hash that it names itself, and carry their
tags when a key is given. -/
def Segment (K : Crates) (key : Option Key) : List AuditEntry → Prop
  | [] => True
  | e :: es => HashOk K e (e.prevHash.getD genesis) ∧ Linked K (tipOf e) es ∧
      ∀ f ∈ e :: es, TagOk? K key f

/-- A piece of a linked chain is a segment. -/
theorem Linked.segment {key : Option Key} {t : Tip} {before piece after : List AuditEntry}
    (hl : Linked K t (before ++ (piece ++ after))) (ht : ∀ e ∈ piece, TagOk? K key e) :
    Segment K key piece := by
  have hpiece := (linked_append.mp (linked_append.mp hl).2).1
  cases piece with
  | nil => exact trivial
  | cons e es =>
    obtain ⟨hfollows, hrest⟩ := hpiece
    refine ⟨?_, hrest, ht⟩
    rw [hfollows.prevHash]
    exact hfollows.hash

/-- **Segments that share an entry** are one segment. -/
theorem Segment.join {key : Option Key} {before after : List AuditEntry} {e : AuditEntry}
    (h₁ : Segment K key (before ++ [e])) (h₂ : Segment K key (e :: after)) :
    Segment K key (before ++ e :: after) := by
  cases before with
  | nil => exact h₂
  | cons f before =>
    obtain ⟨hhash, hlinked, htags⟩ := h₁
    obtain ⟨-, hafter, htags'⟩ := h₂
    refine ⟨hhash, ?_, ?_⟩
    · -- The shared entry is the tip that the second segment starts from.
      have hjoined : Linked K (tipOf f) ((before ++ [e]) ++ after) :=
        linked_append.mpr ⟨hlinked, by rwa [tipAfter_concat]⟩
      simpa using hjoined
    · intro g hg
      rcases List.mem_append.mp (show g ∈ (f :: before) ++ e :: after from hg) with hg | hg
      · exact htags g (List.mem_append_left [e] hg)
      · exact htags' g hg

/-! ### The walk of a bounded pass -/

/-- The first round takes the previous hash from the entry itself. -/
theorem checkEntry_first {key : Option Key} {pass : Pass} {e : AuditEntry} {st : WalkState} :
    checkEntry K key pass WalkState.new e = .ok st ↔
      HashOk K e (e.prevHash.getD genesis) ∧ TagOk? K key e ∧ st = nextState WalkState.new e := by
  unfold checkEntry
  simp only [WalkState.new, if_true, Bool.not_true, Bool.false_eq_true, if_false, check_then_ok,
    checkHash_ok, checkHmac_ok]
  refine and_congr_right fun _ => and_congr_right fun _ => ?_
  exact ⟨fun h => (Except.ok.inj h).symm, fun h => by rw [h]; rfl⟩

/-- **The walk of a bounded pass** goes through exactly on segments. -/
theorem walk_new_ok (key : Option Key) (pass : Pass) (es : List AuditEntry) :
    ((∃ st, walk K key pass WalkState.new es = .ok st) ↔ Segment K key es) ∧
      ∀ st, walk K key pass WalkState.new es = .ok st →
        st.entriesChecked = UInt64.ofNat es.length := by
  cases es with
  | nil =>
    refine ⟨⟨fun _ => trivial, fun _ => ⟨_, rfl⟩⟩, fun st h => ?_⟩
    obtain rfl := Except.ok.inj h
    rfl
  | cons e es =>
    obtain ⟨hiff, hwalked⟩ := walk_ok K key pass es (WalkAt.next WalkState.new e)
      (fun _ _ h => nomatch h)
    simp only [walk_cons, checkEntry_first]
    refine ⟨⟨?_, ?_⟩, ?_⟩
    · rintro ⟨st, _, ⟨hhash, htag, rfl⟩, hwalk⟩
      obtain ⟨hlinked, htags⟩ := hiff.mp ⟨st, hwalk⟩
      exact ⟨hhash, hlinked, List.forall_mem_cons.mpr ⟨htag, htags⟩⟩
    · rintro ⟨hhash, hlinked, htags⟩
      obtain ⟨htag, htags⟩ := List.forall_mem_cons.mp htags
      obtain ⟨st, hwalk⟩ := hiff.mpr ⟨hlinked, htags⟩
      exact ⟨st, _, ⟨hhash, htag, rfl⟩, hwalk⟩
    · rintro st ⟨_, ⟨-, -, rfl⟩, hwalk⟩
      rw [(hwalked st hwalk).entriesChecked, List.length_cons, UInt64.ofNat_add]
      simp only [nextState, WalkState.new, UInt64.reduceOfNat]
      ac_rfl

/-- **A bounded pass is intact exactly on segments**, and counts the entries between its bounds. -/
theorem verifyRange_intact_iff {log : AuditLog} {h : PinnedHead} {fromId toId : Option AuditEntryId}
    {hmacKey : List UInt8} {now : Rfc3339Timestamp} {key : Option Key}
    (hkey : keyDiscipline hmacKey = some key) (hbound : fromId.isSome ∨ toId.isSome) :
    ((verifyRange K log h fromId toId hmacKey now).outcome = .intact ↔
      Segment K key (sliceEntries log fromId toId)) ∧
    (sliceEntries log fromId toId ≠ [] → Segment K key (sliceEntries log fromId toId) →
      (verifyRange K log h fromId toId hmacKey now).entriesChecked =
        UInt64.ofNat (sliceEntries log fromId toId).length ∧
      (verifyRange K log h fromId toId hmacKey now).hmacChecked = key.isSome) := by
  have hfull : (fromId.isNone && toId.isNone) = false := by
    cases fromId <;> cases toId <;> simp_all
  unfold verifyRange
  simp only [hkey]
  by_cases hempty : sliceEntries log fromId toId = []
  · rw [if_pos ⟨hempty, hbound⟩, hempty]
    exact ⟨⟨fun _ => trivial, fun _ => rfl⟩, fun hne => absurd rfl hne⟩
  rw [if_neg fun hc => hempty hc.1]
  obtain ⟨hiff, hcount⟩ := walk_new_ok (K := K) key ⟨fromId, toId, now⟩ (sliceEntries log fromId toId)
  unfold verifySlice
  simp only [hfull, Bool.false_eq_true, if_false]
  cases hwalk : walk K key ⟨fromId, toId, now⟩ WalkState.new (sliceEntries log fromId toId) with
  | error r =>
    have hno : ¬Segment K key (sliceEntries log fromId toId) := by
      intro hseg
      obtain ⟨st, hst⟩ := hiff.mpr hseg
      rw [hwalk] at hst
      cases hst
    exact ⟨⟨fun hr => absurd hr (walk_error hwalk), fun hseg => absurd hseg hno⟩,
      fun _ hseg => absurd hseg hno⟩
  | ok st =>
    exact ⟨⟨fun _ => hiff.mp ⟨st, hwalk⟩, fun _ => rfl⟩, fun _ _ => ⟨hcount st hwalk, rfl⟩⟩

/-- A pass with a key of the wrong length is not intact. -/
theorem keyDiscipline_of_intact {log : AuditLog} {h : PinnedHead} {fromId toId : Option AuditEntryId}
    {hmacKey : List UInt8} {now : Rfc3339Timestamp}
    (hv : (verifyRange K log h fromId toId hmacKey now).outcome = .intact) :
    ∃ key, keyDiscipline hmacKey = some key := by
  cases hkey : keyDiscipline hmacKey with
  | some key => exact ⟨key, rfl⟩
  | none =>
    unfold verifyRange at hv
    simp only [hkey] at hv
    cases hv

/-! ### What the bounds cut out -/

/-- An optional bound names the entry at a position; an absent one stands for a default. -/
def Names (log : AuditLog) (bound : Option AuditEntryId) (default i : ℕ) : Prop :=
  bound = none ∧ i = default ∨ ∃ e, log.entries[i]? = some e ∧ bound = some e.id

/-- No two entries have one identifier. -/
def DistinctIds (log : AuditLog) : Prop := (log.entries.map (·.id)).Nodup

theorem dropWhile_id {es : List AuditEntry} (hnodup : (es.map (·.id)).Nodup) :
    ∀ {i : ℕ} {e : AuditEntry}, es[i]? = some e → es.dropWhile (fun f => f.id ≠ e.id) = es.drop i := by
  induction es with
  | nil => exact fun h => nomatch h
  | cons f es ih =>
    obtain ⟨hf, hnodup⟩ := List.nodup_cons.mp hnodup
    intro i e he
    cases i with
    | zero =>
      obtain rfl := Option.some.inj he
      simp
    | succ i =>
      have hmem : e.id ∈ es.map (·.id) := List.mem_map_of_mem (List.mem_of_getElem? he)
      have hne : f.id ≠ e.id := by
        intro h
        rw [← h] at hmem
        exact hf hmem
      rw [List.dropWhile_cons_of_pos (by simpa using hne), List.drop_succ_cons]
      exact ih hnodup he

theorem takeThrough_id {es : List AuditEntry} (hnodup : (es.map (·.id)).Nodup) :
    ∀ {i : ℕ} {e : AuditEntry}, es[i]? = some e → takeThrough e.id es = es.take (i + 1) := by
  induction es with
  | nil => exact fun h => nomatch h
  | cons f es ih =>
    obtain ⟨hf, hnodup⟩ := List.nodup_cons.mp hnodup
    intro i e he
    cases i with
    | zero =>
      obtain rfl := Option.some.inj he
      rw [takeThrough, if_pos rfl]
      rfl
    | succ i =>
      have hmem : e.id ∈ es.map (·.id) := List.mem_map_of_mem (List.mem_of_getElem? he)
      have hne : f.id ≠ e.id := by
        intro h
        rw [← h] at hmem
        exact hf hmem
      rw [takeThrough, if_neg hne, List.take_succ_cons, ih hnodup he]

/-- **The slice between two bounds** is the entries from one position through the other. -/
theorem sliceEntries_names {log : AuditLog} (hnodup : DistinctIds log)
    {fromId toId : Option AuditEntryId} {i j : ℕ} (hij : i ≤ j) (hj : j < log.entries.length)
    (hfrom : Names log fromId 0 i) (hto : Names log toId (log.entries.length - 1) j) :
    sliceEntries log fromId toId = (log.entries.drop i).take (j - i + 1) := by
  obtain ⟨rest, hrest, hslice⟩ : ∃ rest, rest = log.entries.drop i ∧
      ∀ bound, sliceEntries log fromId bound = bound.elim rest fun id => takeThrough id rest := by
    rcases hfrom with ⟨rfl, rfl⟩ | ⟨e, he, rfl⟩
    · exact ⟨log.entries, rfl, fun bound => by cases bound <;> rfl⟩
    · exact ⟨_, dropWhile_id hnodup he, fun bound => by cases bound <;> rfl⟩
  rw [hslice, hrest]
  rcases hto with ⟨rfl, rfl⟩ | ⟨e, he, rfl⟩
  · refine (List.take_of_length_le ?_).symm
    rw [Option.elim_none, List.length_drop]
    omega
  · have hdrop : ((log.entries.drop i).map (·.id)).Nodup := by
      rw [List.map_drop]
      exact hnodup.sublist (List.drop_sublist _ _)
    refine takeThrough_id hdrop ?_
    rw [List.getElem?_drop]
    rwa [show i + (j - i) = j by omega]

theorem names_getElem (log : AuditLog) {i : ℕ} (hi : i < log.entries.length) (default : ℕ) :
    Names log (some log.entries[i].id) default i :=
  .inr ⟨_, List.getElem?_eq_getElem hi, rfl⟩

theorem length_slice {es : List AuditEntry} {i j : ℕ} (hij : i ≤ j) (hj : j < es.length) :
    ((es.drop i).take (j - i + 1)).length = j - i + 1 := by
  rw [List.length_take, List.length_drop]
  omega

/-! ### Cutting and joining -/

/-- **An intact log has intact sub-ranges**, each with as many entries as its bounds say, every tag
examined. -/
theorem verifyRange_of_full {log : AuditLog} {h : PinnedHead} {hmacKey : List UInt8}
    {now now' : Rfc3339Timestamp} (hkeyed : hmacKey ≠ []) (hnodup : DistinctIds log)
    (hfull : (verifyFull K log h hmacKey now).outcome = .intact) {fromId toId : Option AuditEntryId}
    {i j : ℕ} (hij : i ≤ j) (hj : j < log.entries.length) (hfrom : Names log fromId 0 i)
    (hto : Names log toId (log.entries.length - 1) j) :
    (verifyRange K log h fromId toId hmacKey now').outcome = .intact ∧
    (verifyRange K log h fromId toId hmacKey now').entriesChecked = UInt64.ofNat (j - i + 1) ∧
    (verifyRange K log h fromId toId hmacKey now').hmacChecked = true := by
  obtain ⟨key, hkey⟩ := keyDiscipline_of_intact hfull
  obtain ⟨k, rfl⟩ : ∃ k : Key, hmacKey = k.toList := by
    rw [keyDiscipline, if_neg hkeyed, keyOfSlice] at hkey
    split_ifs at hkey with hlen
    · exact ⟨⟨hmacKey.toArray, by simp [hlen]⟩, rfl⟩
    · cases hkey
  have hauth := verifyFull_intact_iff.mp hfull
  by_cases hbound : fromId.isSome ∨ toId.isSome
  · have hslice := sliceEntries_names hnodup hij hj hfrom hto
    obtain ⟨hiff, hcount⟩ := @verifyRange_intact_iff K log h fromId toId k.toList now' (some k)
      (keyDiscipline_toList k) hbound
    have hcut : log.entries = log.entries.take i ++ ((log.entries.drop i).take (j - i + 1) ++
        (log.entries.drop i).drop (j - i + 1)) := by
      rw [List.take_append_drop, List.take_append_drop]
    have hseg : Segment K (some k) (sliceEntries log fromId toId) := by
      rw [hslice]
      refine Linked.segment (hcut ▸ hauth.linked) fun e he => tagOk?_some.mpr (hauth.tagged e ?_)
      exact List.mem_of_mem_drop (List.mem_of_mem_take he)
    have hlen := length_slice hij hj
    have hne : sliceEntries log fromId toId ≠ [] := by
      rw [hslice]
      intro hnil
      rw [hnil] at hlen
      cases hlen
    obtain ⟨hentries, hhmac⟩ := hcount hne hseg
    refine ⟨hiff.mpr hseg, ?_, hhmac⟩
    rw [hentries, hslice, hlen]
  · -- Without bounds the pass is a full one.
    obtain ⟨rfl, rfl⟩ : fromId = none ∧ toId = none := by
      cases fromId <;> cases toId <;> simp_all
    obtain ⟨st, hwalked, hv⟩ := verifyFull_of_authentic log now' hauth
    change verifyRange K log h none none k.toList now' = _ at hv
    rw [hv]
    obtain rfl : i = 0 := by simpa [Names] using hfrom
    obtain rfl : j = log.entries.length - 1 := by simpa [Names] using hto
    refine ⟨rfl, ?_, rfl⟩
    change st.entriesChecked = _
    rw [hwalked.entriesChecked, show log.entries.length - 1 - 0 + 1 = log.entries.length by omega]
    exact UInt64.zero_add _

/-- **Intact sub-ranges that meet in an entry are one.** -/
theorem verifyRange_join {log : AuditLog} {h : PinnedHead} {hmacKey : List UInt8}
    {now₁ now₂ now₃ : Rfc3339Timestamp} (hnodup : DistinctIds log) {a b c : ℕ} (hab : a ≤ b)
    (hbc : b ≤ c) (hc : c < log.entries.length)
    (h₁ : (verifyRange K log h (some (log.entries[a]).id) (some (log.entries[b]).id) hmacKey
      now₁).outcome = .intact)
    (h₂ : (verifyRange K log h (some (log.entries[b]).id) (some (log.entries[c]).id) hmacKey
      now₂).outcome = .intact) :
    (verifyRange K log h (some (log.entries[a]).id) (some (log.entries[c]).id) hmacKey
      now₃).outcome = .intact := by
  obtain ⟨key, hkey⟩ := keyDiscipline_of_intact h₁
  have hslice : ∀ {i j : ℕ} (hij : i ≤ j) (hj : j < log.entries.length),
      sliceEntries log (some (log.entries[i]).id) (some (log.entries[j]).id) =
        (log.entries.drop i).take (j - i + 1) := fun hij hj =>
    sliceEntries_names hnodup hij hj (names_getElem log _ _) (names_getElem log _ _)
  have hseg₁ := (verifyRange_intact_iff hkey (.inl rfl)).1.mp h₁
  have hseg₂ := (verifyRange_intact_iff hkey (.inl rfl)).1.mp h₂
  refine (verifyRange_intact_iff hkey (.inl rfl)).1.mpr ?_
  rw [hslice hab (by omega)] at hseg₁
  rw [hslice hbc hc] at hseg₂
  rw [hslice (hab.trans hbc) hc]
  have hb : b < log.entries.length := by omega
  have hdrop : log.entries.drop b = log.entries[b] :: log.entries.drop (b + 1) :=
    List.drop_eq_getElem_cons hb
  have hfirst : (log.entries.drop a).take (b - a + 1) =
      (log.entries.drop a).take (b - a) ++ [log.entries[b]] := by
    rw [List.take_succ_eq_append_getElem (by rw [List.length_drop]; omega)]
    congr 2
    rw [List.getElem_drop]
    congr 1
    omega
  have hsecond : (log.entries.drop b).take (c - b + 1) =
      log.entries[b] :: (log.entries.drop (b + 1)).take (c - b) := by
    rw [hdrop, List.take_succ_cons]
  have hwhole : (log.entries.drop a).take (c - a + 1) =
      (log.entries.drop a).take (b - a) ++
        log.entries[b] :: (log.entries.drop (b + 1)).take (c - b) := by
    rw [show c - a + 1 = (b - a) + (c - b + 1) by omega, List.take_add, List.drop_drop,
      show a + (b - a) = b by omega, hsecond]
  rw [hfirst] at hseg₁
  rw [hsecond] at hseg₂
  rw [hwhole]
  exact hseg₁.join hseg₂

/-- **Sub-range verification composes**: it cuts intact logs into intact sub-ranges and joins intact
sub-ranges of any log. -/
theorem verifyRange_composes (K : Crates) (log : AuditLog) (h : PinnedHead) (hmacKey : List UInt8)
    (hnodup : DistinctIds log) :
    (∀ (now now' : Rfc3339Timestamp) (fromId toId : Option AuditEntryId) (i j : ℕ), hmacKey ≠ [] →
      (verifyFull K log h hmacKey now).outcome = .intact → i ≤ j → j < log.entries.length →
      Names log fromId 0 i → Names log toId (log.entries.length - 1) j →
        (verifyRange K log h fromId toId hmacKey now').outcome = .intact ∧
        (verifyRange K log h fromId toId hmacKey now').entriesChecked = UInt64.ofNat (j - i + 1) ∧
        (verifyRange K log h fromId toId hmacKey now').hmacChecked = true) ∧
    ∀ (now₁ now₂ now₃ : Rfc3339Timestamp) (a b c : ℕ) (hab : a ≤ b) (hbc : b ≤ c)
      (hc : c < log.entries.length),
      (verifyRange K log h (some (log.entries[a]).id) (some (log.entries[b]).id) hmacKey
        now₁).outcome = .intact →
      (verifyRange K log h (some (log.entries[b]).id) (some (log.entries[c]).id) hmacKey
        now₂).outcome = .intact →
      (verifyRange K log h (some (log.entries[a]).id) (some (log.entries[c]).id) hmacKey
        now₃).outcome = .intact :=
  ⟨fun _ _ _ _ _ _ hkeyed hfull hij hj hfrom hto =>
      verifyRange_of_full hkeyed hnodup hfull hij hj hfrom hto,
    fun _ _ _ _ _ _ hab hbc hc h₁ h₂ => verifyRange_join hnodup hab hbc hc h₁ h₂⟩

/-- A log of two entries: its last one alone, and the two halves that meet in the first. -/
theorem two_entries_compose : ∃ (log : AuditLog) (h : PinnedHead) (e f : AuditEntry),
    log.entries = [e, f] ∧
    ((verifyRange sampleCrates log h (some f.id) none sampleKey.toList epoch).outcome = .intact ∧
      (verifyRange sampleCrates log h (some f.id) none sampleKey.toList epoch).entriesChecked = 1 ∧
      (verifyRange sampleCrates log h (some f.id) none sampleKey.toList epoch).hmacChecked = true) ∧
    (verifyRange sampleCrates log h (some e.id) (some f.id) sampleKey.toList epoch).outcome =
      .intact := by
  obtain ⟨log₁, e, h₁, ha₁⟩ := exists_append sampleCrates AuditLog.new (sampleCall 1).params sampleKey
    (sampleCall 1).draw
  obtain ⟨log₂, f, h₂, ha₂⟩ := exists_append sampleCrates log₁ (sampleCall 2).params sampleKey
    (sampleCall 2).draw
  obtain ⟨_, -, hae⟩ := append_ok ha₁
  obtain ⟨_, -, haf⟩ := append_ok ha₂
  obtain ⟨h, -, hauth⟩ := ((Written.start.append ha₁).append ha₂).authentic (by simp) (by simp)
  have hid : e.id = (sampleCall 1).draw.id := congrArg AuditEntry.id hae.part_eq
  have hid' : f.id = (sampleCall 2).draw.id := congrArg AuditEntry.id haf.part_eq
  have hdistinct : DistinctIds (AuditLog.fromPersisted [e, f]) := by
    have hne : (sampleCall 1).draw.id ≠ (sampleCall 2).draw.id := by decide
    simpa [DistinctIds, AuditLog.fromPersisted, hid, hid'] using hne
  have hfull : (verifyFull sampleCrates (AuditLog.fromPersisted [e, f]) h sampleKey.toList
      epoch).outcome = .intact := verifyFull_intact_iff.mpr hauth
  obtain ⟨hcut, hjoin⟩ := verifyRange_composes sampleCrates (AuditLog.fromPersisted [e, f]) h
    sampleKey.toList hdistinct
  have hkeyed : sampleKey.toList ≠ [] := by decide
  have hlen : 1 < (AuditLog.fromPersisted [e, f]).entries.length := Nat.lt_succ_self 1
  refine ⟨AuditLog.fromPersisted [e, f], h, e, f, rfl, ?_, ?_⟩
  · exact hcut epoch epoch (some f.id) none 1 1 hkeyed hfull le_rfl hlen (.inr ⟨f, rfl, rfl⟩)
      (.inl ⟨rfl, rfl⟩)
  · refine hjoin epoch epoch epoch 0 1 1 (by decide) le_rfl hlen ?_ ?_
    · exact (hcut epoch epoch (some e.id) (some f.id) 0 1 hkeyed hfull (by decide) hlen
        (.inr ⟨e, rfl, rfl⟩) (.inr ⟨f, rfl, rfl⟩)).1
    · exact (hcut epoch epoch (some f.id) (some f.id) 1 1 hkeyed hfull le_rfl hlen
        (.inr ⟨f, rfl, rfl⟩) (.inr ⟨f, rfl, rfl⟩)).1

end MerkleVault.Audit.Ranges
