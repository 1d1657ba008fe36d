import MerkleVault.Policy.Evaluator
import MerkleVault.Policy.Rego

/-! # The Evaluator and the Rego Policies

The evaluator mirrors the Rego policies.  An input of the evaluator is read as the documents that the
packages see; a valid signed flag counts as a slash command.

* `tags_agree`, `reveal_agrees`: one check of the evaluator, against its package;
* `evaluate_refines_rego`: what the evaluator allows, against what the packages allow;
* `denial_explained`: which package denies where the evaluator does. -/

namespace MerkleVault.Policy.Agreement

open MerkleVault.Types MerkleVault.Identity
open MerkleVault.Sqlite.Tables hiding NamespacePolicy
open MerkleVault.Secrets.Aggregate (TagKey)
open MerkleVault.Secrets.Serialized (Tag TagValue)
open MerkleVault.Socket.Gate (consumersMatch)
open MerkleVault.Policy.Evaluator

/-! ### Documents -/

/-- The state of the vault as the packages name it. -/
def stateName : SealedState → String
  | .sealed => "sealed"
  | .unsealing => "unsealing"
  | .unsealed => "unsealed"
  | .shuttingDown => "shutting_down"

/-- What `unseal_required` is asked about a decision. -/
def unsealDocument (i : PolicyDecisionInput) : Rego.UnsealRequiredInput :=
  ⟨stateName i.vaultState, i.op.display⟩

/-- What `cross_namespace` is asked. -/
def crossDocument (p : NamespacePolicy) (i : PolicyDecisionInput) : Rego.CrossNamespaceInput :=
  ⟨i.sessionNamespace.asStr, i.targetNamespace.asStr, p.crossNamespace.masterSwitch,
    p.crossNamespace.allowedImports.map (·.asStr)⟩

/-- The entry of a class, when the policy has one. -/
def rateRow (p : NamespacePolicy) (c : OpClass) : Option Rego.RateLimitRow :=
  (p.rateLimit.perClass c).map fun e => ⟨c.display, e.maxCount, e.windowSeconds⟩

/-- What `rate_limit` is asked. -/
def rateDocument (p : NamespacePolicy) (i : PolicyDecisionInput) : Rego.RateLimitInput :=
  ⟨i.currentRateWindow.opClass.display,
    [OpClass.plaintextReads, .useTokenResolves, .reveals].filterMap (rateRow p),
    i.currentRateWindow.countInWindow, i.currentRateWindow.windowSeconds⟩

/-- What `tag_validation` is asked.  A sensitivity that is missing is read as low. -/
def tagDocument (p : NamespacePolicy) (i : PolicyDecisionInput) : Rego.TagInput :=
  ⟨i.tags.map fun t => (tagKeyDisplay t.key, t.value.asStr), (i.sensitivity.getD .low).display,
    p.tagsRules.requiredKeys.map tagKeyDisplay, p.tagsRules.forbiddenValues.map (·.2)⟩

/-- What both packages for reveals are asked.  A sensitivity that is missing is read as low, and a valid
flag in the signed configuration stands for the slash command. -/
def revealDocument (p : NamespacePolicy) (i : PolicyDecisionInput) : Rego.RevealInput :=
  ⟨i.op.display, (i.sensitivity.getD .low).display,
    i.operatorConfirmation.slashCommand || i.operatorConfirmation.signedConfigFlagValid,
    i.operatorConfirmation.oobAck, p.reveal.allowed, some p.reveal.requireOobAbove.display⟩

variable {p : NamespacePolicy} {i : PolicyDecisionInput}

/-! ### One check and its package -/

theorem display_eq_unseal {op : AuditOp} : op.display = "unseal" ↔ op = .unseal :=
  AuditOp.display_injective.eq_iff (b := AuditOp.unseal)

theorem display_eq_doctor {op : AuditOp} : op.display = "doctor" ↔ op = .doctor :=
  AuditOp.display_injective.eq_iff (b := AuditOp.doctor)

theorem display_eq_reveal {op : AuditOp} : op.display = "reveal" ↔ op = .reveal :=
  AuditOp.display_injective.eq_iff (b := AuditOp.reveal)

theorem unseal_agrees :
    checkUnsealRequired i = none ↔ Rego.unsealRequired.allow (unsealDocument i) = true := by
  unfold checkUnsealRequired Rego.unsealRequired unsealDocument
  cases i.vaultState <;> simp [stateName, display_eq_unseal, display_eq_doctor]
  tauto

theorem asStr_ne_empty (l : NamespaceLabel) : l.asStr ≠ "" := by
  intro h
  have hvalid := l.valid
  rw [h] at hvalid
  exact absurd hvalid (by decide)

theorem asStr_inj {l l' : NamespaceLabel} : l.asStr = l'.asStr ↔ l = l' :=
  ⟨fun h => by cases l; cases l'; simpa using h, fun h => by rw [h]⟩

theorem cross_agrees :
    checkCrossNamespace p i = none ↔ Rego.crossNamespace.allow (crossDocument p i) = true := by
  unfold checkCrossNamespace CrossNamespacePolicy.check Rego.crossNamespace crossDocument
  by_cases hsame : i.sessionNamespace = i.targetNamespace
  · simp [hsame, asStr_ne_empty]
  · have hne : i.sessionNamespace.asStr ≠ i.targetNamespace.asStr := fun h => hsame (asStr_inj.mp h)
    have hempty : ∀ l : NamespaceLabel, l.asStr.isEmpty = false := fun l => by
      rw [Bool.eq_false_iff, Ne, String.isEmpty_iff]
      exact asStr_ne_empty l
    cases p.crossNamespace.masterSwitch with
    | false => simp [hsame, hne, hempty]
    | true => by_cases himport : i.targetNamespace ∈ p.crossNamespace.allowedImports <;>
        simp [hsame, hne, hempty, himport, asStr_ne_empty, asStr_inj]

theorem OpClass.display_injective : Function.Injective OpClass.display := by
  intro c c' h
  cases c <;> cases c' <;> first | rfl | exact absurd h (by decide)

theorem filter_rateRow (c c' : OpClass) :
    (rateRow p c).toList.filter (fun row => row.opClass = c'.display) =
      if c = c' then (rateRow p c).toList else [] := by
  unfold rateRow
  cases p.rateLimit.perClass c with
  | none => simp
  | some e => by_cases h : c = c' <;> simp [h, OpClass.display_injective.eq_iff]

/-- The rows of the class are its entry. -/
theorem matchingEntries_eq : Rego.matchingEntries (rateDocument p i) =
    (rateRow p i.currentRateWindow.opClass).toList := by
  have hrows : [OpClass.plaintextReads, .useTokenResolves, .reveals].filterMap (rateRow p) =
      (rateRow p .plaintextReads).toList ++ ((rateRow p .useTokenResolves).toList ++
        (rateRow p .reveals).toList) := by
    cases h₁ : rateRow p .plaintextReads <;> cases h₂ : rateRow p .useTokenResolves <;>
      cases h₃ : rateRow p .reveals <;> simp [h₁, h₂, h₃]
  unfold Rego.matchingEntries rateDocument
  simp only [hrows, List.filter_append, filter_rateRow]
  cases i.currentRateWindow.opClass <;> simp

theorem rate_agrees :
    checkRateLimit p i = none ↔ Rego.rateLimit.allow (rateDocument p i) = true := by
  have hclass : i.currentRateWindow.opClass.display ∈ Rego.validOpClasses := by
    cases i.currentRateWindow.opClass <;> decide
  simp only [Rego.rateLimit, Rego.rateLimitDenials, matchingEntries_eq]
  unfold checkRateLimit RateLimit.check rateRow
  cases hentry : p.rateLimit.perClass i.currentRateWindow.opClass with
  | none => simp [hentry]
  | some entry =>
    by_cases hwindow : i.currentRateWindow.windowSeconds = entry.windowSeconds <;>
      by_cases hcount : entry.maxCount ≤ i.currentRateWindow.countInWindow <;>
      simp [rateDocument, hentry, hclass, hwindow, hcount]

/-! ### Tags -/

/-- Where the two disagree on tags: no value is forbidden under another key, or 64 characters long. -/
structure TagsPlain (p : NamespacePolicy) (i : PolicyDecisionInput) : Prop where
  forbidden : ∀ t ∈ i.tags, ∀ f ∈ p.tagsRules.forbiddenValues, t.value.asStr = f.2 → t.key = f.1
  short : ∀ t ∈ i.tags, t.value.asStr.length ≠ 64

/-- What the packages do not know of: a list of keys that the namespace may use. -/
def KeysListed (p : NamespacePolicy) (i : PolicyDecisionInput) : Prop :=
  p.tagsRules.allowedKeys = [] ∨ ∀ t ∈ i.tags, t.key ∈ p.tagsRules.allowedKeys

theorem tagKeyDisplay_injective : Function.Injective tagKeyDisplay := by
  intro k k' h
  cases k <;> cases k' <;> first | rfl | exact absurd h (by decide)

theorem validate_ok_iff (r : TagsRules) (tags : List Tag) (sensitivity : Sensitivity) :
    r.validate tags sensitivity = .ok () ↔
      (∀ key ∈ r.requiredKeys, ∃ t ∈ tags, t.key = key) ∧
      (∀ t ∈ tags, ∀ f ∈ r.forbiddenValues, t.key = f.1 → t.value.asStr ≠ f.2) ∧
      (sensitivity = .high → ∃ t ∈ tags, t.key = .env) ∧
      (r.allowedKeys = [] ∨ ∀ t ∈ tags, t.key ∈ r.allowedKeys) := by
  unfold TagsRules.validate TagsRules.forbiddenTag
  cases hrequired : r.requiredKeys.find? fun key => !tags.any fun t => t.key = key with
  | some key =>
    have hkey := List.find?_some hrequired
    have hmem := List.mem_of_find?_eq_some hrequired
    simp only [Bool.not_eq_true', List.any_eq_false, decide_eq_true_eq] at hkey
    refine iff_of_false (by simp) fun h => ?_
    obtain ⟨t, ht, hsame⟩ := h.1 key hmem
    exact hkey t ht hsame
  | none =>
    have hpresent : ∀ key ∈ r.requiredKeys, ∃ t ∈ tags, t.key = key := by
      simpa using hrequired
    cases hforbidden : tags.find? fun t =>
        r.forbiddenValues.any fun f => t.key = f.1 && t.value.asStr = f.2 with
    | some t =>
      have hvalue := List.find?_some hforbidden
      have hmem := List.mem_of_find?_eq_some hforbidden
      simp only [List.any_eq_true, Bool.and_eq_true, decide_eq_true_eq] at hvalue
      obtain ⟨f, hf, hkey, hsame⟩ := hvalue
      exact iff_of_false (by simp) fun h => h.2.1 t hmem f hf hkey hsame
    | none =>
      have hclear : ∀ t ∈ tags, ∀ f ∈ r.forbiddenValues, t.key = f.1 → t.value.asStr ≠ f.2 := by
        intro t ht f hf hkey hsame
        have hnone := List.find?_eq_none.mp hforbidden t ht
        exact hnone (List.any_eq_true.mpr ⟨f, hf, by simp [hkey, hsame]⟩)
      dsimp only
      by_cases henv : sensitivity = .high → ∃ t ∈ tags, t.key = .env
      · rw [if_neg (by simpa using henv)]
        by_cases hall : r.allowedKeys = []
        · simp only [hall, List.isEmpty_nil, if_true, true_or, and_true, true_iff]
          exact ⟨hpresent, hclear, henv⟩
        · rw [if_neg (by simpa using hall)]
          cases hkeys : tags.find? fun t => t.key ∉ r.allowedKeys with
          | some t =>
            have hkey := List.find?_some hkeys
            have hmem := List.mem_of_find?_eq_some hkeys
            refine iff_of_false (by simp) fun h => ?_
            rcases h.2.2.2 with h | h
            · exact hall h
            · exact of_decide_eq_true hkey (h t hmem)
          | none =>
            have hlisted : ∀ t ∈ tags, t.key ∈ r.allowedKeys := by simpa using hkeys
            exact iff_of_true rfl ⟨hpresent, hclear, henv, .inr hlisted⟩
      · rw [if_pos (by simpa using henv)]
        exact iff_of_false (by simp) fun h => henv h.2.2.1

theorem tagValuePattern_iff (v : TagValue) :
    Rego.tagValuePattern v.asStr = true ↔ v.asStr.length ≠ 64 := by
  have hvalid := v.valid
  unfold tagValueRe at hvalid
  unfold Rego.tagValuePattern
  rw [← String.length_toList]
  cases hchars : v.asStr.toList with
  | nil => simp [hchars] at hvalid
  | cons c cs =>
    simp only [hchars, Bool.and_eq_true, decide_eq_true_eq] at hvalid
    obtain ⟨⟨⟨hc, hlength⟩, hmiddle⟩, hlast⟩ := hvalid
    simp only [hc, hmiddle, hlast, Bool.true_and, Bool.and_true, decide_eq_true_eq, List.length_cons]
    omega

theorem tagDenials_eq_nil : Rego.tagDenials (tagDocument p i) = [] ↔
    (∀ key ∈ p.tagsRules.requiredKeys, ∃ t ∈ i.tags, t.key = key) ∧
    (∀ t ∈ i.tags, ∀ f ∈ p.tagsRules.forbiddenValues, t.value.asStr ≠ f.2) ∧
    (i.sensitivity.getD .low = .high → ∃ t ∈ i.tags, t.key = .env) ∧
    ∀ t ∈ i.tags, t.value.asStr.length ≠ 64 := by
  have hpresent : ∀ key : TagKey, tagKeyDisplay key ∈ Rego.presentKeys (tagDocument p i) ↔
      ∃ t ∈ i.tags, t.key = key := by
    intro key
    simp [Rego.presentKeys, tagDocument, tagKeyDisplay_injective.eq_iff]
  have hknown : ∀ key : TagKey, tagKeyDisplay key ∈ Rego.allowedTagKeys := by
    intro key
    cases key <;> decide
  have hhigh : (i.sensitivity.getD .low).display = "high" ↔ i.sensitivity.getD .low = .high :=
    Sensitivity.display_injective.eq_iff (b := Sensitivity.high)
  have henv : "env" ∈ Rego.presentKeys (tagDocument p i) ↔ ∃ t ∈ i.tags, t.key = .env :=
    hpresent .env
  have hforbidden : ∀ t : Tag, t.value.asStr ∈ p.tagsRules.forbiddenValues.map (·.2) ↔
      ∃ f ∈ p.tagsRules.forbiddenValues, t.value.asStr = f.2 := by
    intro t
    simp only [List.mem_map]
    exact ⟨fun ⟨f, hf, h⟩ => ⟨f, hf, h.symm⟩, fun ⟨f, hf, h⟩ => ⟨f, hf, h.symm⟩⟩
  have htags : (tagDocument p i).tags =
      i.tags.map fun t => (tagKeyDisplay t.key, t.value.asStr) := rfl
  unfold Rego.tagDenials
  simp only [List.append_eq_nil_iff, List.flatMap_eq_nil_iff, Rego.rule_eq_nil, Bool.not_eq_false',
    List.contains_iff_mem, and_assoc]
  refine and_congr ?_ (and_congr ?_ (and_congr ?_ ?_))
  · rw [show (tagDocument p i).required = p.tagsRules.requiredKeys.map tagKeyDisplay from rfl,
      List.forall_mem_map]
    exact forall₂_congr fun key _ => hpresent key
  · rw [htags, List.forall_mem_map]
    refine forall₂_congr fun t _ => ?_
    rw [← Bool.not_eq_true, List.contains_iff_mem]
    refine (not_congr (hforbidden t)).trans ?_
    push Not
    rfl
  · rw [Bool.and_eq_false_iff, Bool.not_eq_false', List.contains_iff_mem, henv, decide_eq_false_iff_not]
    exact (or_congr_left (not_congr hhigh)).trans imp_iff_not_or.symm
  · rw [htags, List.forall_mem_map, List.forall_mem_map]
    refine (and_iff_right fun (t : Tag) _ => hknown t.key).trans (forall₂_congr fun t _ => ?_)
    exact tagValuePattern_iff t.value

theorem tags_agree (hop : i.op = .put ∨ i.op = .rotate) :
    checkTags p i = none ∧ TagsPlain p i ↔
      Rego.tagValidation.allow (tagDocument p i) = true ∧ KeysListed p i := by
  have hcheck : checkTags p i = none ↔
      p.tagsRules.validate i.tags (i.sensitivity.getD .low) = .ok () := by
    unfold checkTags
    rw [if_neg (by rcases hop with hop | hop <;> simp [hop])]
    cases p.tagsRules.validate i.tags (i.sensitivity.getD .low) <;> simp
  rw [hcheck, validate_ok_iff]
  simp only [Rego.tagValidation, List.isEmpty_iff, tagDenials_eq_nil, KeysListed]
  constructor
  · rintro ⟨⟨hrequired, hforbidden, henv, hkeys⟩, hplain⟩
    refine ⟨⟨hrequired, fun t ht f hf hsame => ?_, henv, hplain.short⟩, hkeys⟩
    exact hforbidden t ht f hf (hplain.forbidden t ht f hf hsame) hsame
  · rintro ⟨⟨hrequired, hforbidden, henv, hshort⟩, hkeys⟩
    exact ⟨⟨hrequired, fun t ht f hf _ => hforbidden t ht f hf, henv, hkeys⟩,
      fun t ht f hf hsame => absurd hsame (hforbidden t ht f hf), hshort⟩

/-! ### Reveals -/

theorem sensitivityOrdinal_display (x : Sensitivity) :
    Rego.sensitivityOrdinal x.display = some x.rank := by
  cases x <;> rfl

theorem thresholdLevel_eq :
    Rego.thresholdLevel (revealDocument p i) = some p.reveal.requireOobAbove.rank :=
  sensitivityOrdinal_display _

theorem belowThreshold_eq : Rego.belowThreshold (revealDocument p i) =
    !oobRequiredFor p.reveal (i.sensitivity.getD .low) := by
  unfold Rego.belowThreshold
  rw [thresholdLevel_eq, show (revealDocument p i).sensitivity = (i.sensitivity.getD .low).display
    from rfl, sensitivityOrdinal_display]
  simp [oobRequiredFor, ← decide_not]

theorem confirmed_iff (hop : i.op = .reveal) : Rego.confirmed (revealDocument p i) = true ↔
    p.reveal.allowed = true ∧ (i.operatorConfirmation.slashCommand = true ∨
      i.operatorConfirmation.signedConfigFlagValid = true) ∧
    (oobRequiredFor p.reveal (i.sensitivity.getD .low) = true → i.operatorConfirmation.oobAck = true) := by
  unfold Rego.confirmed
  rw [belowThreshold_eq]
  simp only [revealDocument, hop, Bool.or_eq_true, Bool.and_eq_true, Bool.not_eq_true']
  cases oobRequiredFor p.reveal (i.sensitivity.getD .low) <;>
    cases i.operatorConfirmation.oobAck <;> simp [AuditOp.display]

/-- The last of the three sensitivities meets every threshold. -/
theorem oobRequiredFor_high (r : RevealPolicy) : oobRequiredFor r .high = true := by
  cases h : r.requireOobAbove <;> simp [oobRequiredFor, h, Sensitivity.rank]

theorem checkReveal_iff : checkReveal p i = none ↔ p.reveal.allowed = true ∧
    (i.operatorConfirmation.slashCommand = true ∨
      i.operatorConfirmation.signedConfigFlagValid = true) ∧
    (oobRequiredFor p.reveal (i.sensitivity.getD .low) = true → i.operatorConfirmation.oobAck = true) ∧
    p.devicePolicy.isSatisfiedBy i.boundDeviceClass = true := by
  have hhigh : i.sensitivity.getD .low = .high →
      oobRequiredFor p.reveal (i.sensitivity.getD .low) = true := fun h => by
    rw [h]
    exact oobRequiredFor_high _
  unfold checkReveal
  dsimp only
  split_ifs with h₁ h₂ h₃ h₄ h₅ <;>
    simp only [Bool.not_eq_true', Bool.and_eq_true, decide_eq_true_eq] at *
  · simp [h₁]
  · simp [h₂]
  · simp [h₃]
  · simp [hhigh h₄.1, h₄.2]
  · simp [h₅]
  · simp only [Bool.not_eq_false] at h₁ h₅
    refine iff_of_true trivial ⟨h₁, ?_, fun h => ?_, h₅⟩
    · by_contra hnone
      rw [not_or, Bool.not_eq_true, Bool.not_eq_true] at hnone
      exact h₂ hnone
    · by_contra hack
      exact h₃ ⟨h, Bool.not_eq_true _ ▸ hack⟩

theorem reveal_agrees (hop : i.op = .reveal) : checkReveal p i = none ↔
    Rego.revealAuthorization.allow (revealDocument p i) = true ∧
      p.devicePolicy.isSatisfiedBy i.boundDeviceClass = true := by
  rw [checkReveal_iff, show Rego.revealAuthorization.allow = Rego.confirmed from rfl,
    confirmed_iff hop, and_assoc, and_assoc]

/-- Every package that governs the operation allows its document.  `unseal_preconditions` is left out: it
is asked about the host before an unseal begins, and a decision has nothing of that
(`validate_agrees`); and so are `argon2id_parameters` and `ad_binding`, which are about keys and blobs. -/
structure RegoAllows (p : NamespacePolicy) (i : PolicyDecisionInput) : Prop where
  unsealRequired : Rego.unsealRequired.allow (unsealDocument i) = true
  crossNamespace : Rego.crossNamespace.allow (crossDocument p i) = true
  rateLimit : Rego.rateLimit.allow (rateDocument p i) = true
  tagValidation : i.op = .put ∨ i.op = .rotate → Rego.tagValidation.allow (tagDocument p i) = true
  revealAuthorization : i.op = .reveal → Rego.revealAuthorization.allow (revealDocument p i) = true
  sensitivityOob : Rego.sensitivityOob.allow (revealDocument p i) = true

/-! ### The evaluator and all packages -/

/-- What the evaluator asks beside the packages: the program, the class of the device, and the keys
that the namespace lists. -/
structure Granted (p : NamespacePolicy) (i : PolicyDecisionInput) : Prop where
  consumer : ∀ program, i.callerProgram = some program →
    consumersMatch p.allowedConsumers program = true
  device : i.op = .reveal → p.devicePolicy.isSatisfiedBy i.boundDeviceClass = true
  keys : i.op = .put ∨ i.op = .rotate → KeysListed p i

theorem evaluate_eq_allow : evaluate p i = .allow ↔ ∀ check ∈ checks p i, check = none := by
  unfold evaluate
  cases h : (checks p i).findSome? id with
  | none => simpa using h
  | some d =>
    obtain ⟨check, hmem, hd⟩ := List.exists_of_findSome?_eq_some h
    refine iff_of_false (by simp) fun hall => ?_
    rw [hall check hmem] at hd
    cases hd

theorem consumers_none : checkAllowedConsumers p i = none ↔
    ∀ program, i.callerProgram = some program → consumersMatch p.allowedConsumers program = true := by
  unfold checkAllowedConsumers
  cases i.callerProgram <;> simp

/-- While the agent shuts down no operation gets past the first check. -/
theorem unsealOpState_none (h : checkUnsealRequired i = none) : checkUnsealOpState i = none := by
  unfold checkUnsealRequired at h
  unfold checkUnsealOpState
  cases hstate : i.vaultState with
  | shuttingDown => simp [hstate] at h
  | _ => rfl

theorem sensitivityOob_allow : Rego.sensitivityOob.allow (revealDocument p i) = true ↔
    (i.op = .reveal → Rego.revealAuthorization.allow (revealDocument p i) = true) := by
  have hop : (revealDocument p i).op = "reveal" ↔ i.op = .reveal := display_eq_reveal
  simp only [Rego.sensitivityOob, Rego.revealAuthorization, Bool.or_eq_true, decide_eq_true_eq, Ne, hop]
  tauto

theorem writes_agree : (checkTags p i = none ∧ (i.op = .put ∨ i.op = .rotate → TagsPlain p i)) ↔
    (i.op = .put ∨ i.op = .rotate → Rego.tagValidation.allow (tagDocument p i) = true) ∧
      (i.op = .put ∨ i.op = .rotate → KeysListed p i) := by
  by_cases hop : i.op = .put ∨ i.op = .rotate
  · simpa [hop] using tags_agree hop
  · have hnone : checkTags p i = none := by
      unfold checkTags
      rw [if_pos]
      simpa [not_or] using hop
    simp [hop, hnone]

/-- **The evaluator refines the Rego policies.**  It allows what all packages that govern the operation
allow, where the program, the device and the keys are granted; the other way round too, but for tags:
it also allows a value that is forbidden under another key, and a value of 64 characters. -/
theorem evaluate_refines_rego (p : NamespacePolicy) (i : PolicyDecisionInput) :
    (evaluate p i = .allow ∧ (i.op = .put ∨ i.op = .rotate → TagsPlain p i)) ↔
      RegoAllows p i ∧ Granted p i := by
  have hreveal : (if i.op = .reveal then checkReveal p i else none) = none ↔
      (i.op = .reveal → Rego.revealAuthorization.allow (revealDocument p i) = true ∧
        p.devicePolicy.isSatisfiedBy i.boundDeviceClass = true) := by
    by_cases hop : i.op = .reveal
    · simpa [hop] using reveal_agrees hop
    · simp [hop]
  have hwrites := writes_agree (p := p) (i := i)
  simp only [evaluate_eq_allow, checks, List.forall_mem_cons, List.not_mem_nil, IsEmpty.forall_iff,
    implies_true, and_true, unseal_agrees, cross_agrees, rate_agrees, consumers_none, hreveal]
  constructor
  · rintro ⟨⟨hunseal, hcross, hrate, hconsumer, htags, hreveals, -⟩, hplain⟩
    obtain ⟨hvalid, hkeys⟩ := hwrites.mp ⟨htags, hplain⟩
    exact ⟨⟨hunseal, hcross, hrate, hvalid, fun h => (hreveals h).1,
      sensitivityOob_allow.mpr fun h => (hreveals h).1⟩, hconsumer, fun h => (hreveals h).2, hkeys⟩
  · rintro ⟨hrego, hgranted⟩
    obtain ⟨htags, hplain⟩ := hwrites.mpr ⟨hrego.tagValidation, hgranted.keys⟩
    refine ⟨⟨hrego.unsealRequired, hrego.crossNamespace, hrego.rateLimit, hgranted.consumer, htags,
      fun h => ⟨hrego.revealAuthorization h, hgranted.device h⟩, ?_⟩, hplain⟩
    split_ifs
    · exact unsealOpState_none (unseal_agrees.mpr hrego.unsealRequired)
    · rfl

/-! ### Denials -/

/-- The packages that are asked first allow the operation, and its program is granted. -/
structure Admitted (p : NamespacePolicy) (i : PolicyDecisionInput) : Prop where
  unsealRequired : Rego.unsealRequired.allow (unsealDocument i) = true
  crossNamespace : Rego.crossNamespace.allow (crossDocument p i) = true
  rateLimit : Rego.rateLimit.allow (rateDocument p i) = true
  consumer : ∀ program, i.callerProgram = some program →
    consumersMatch p.allowedConsumers program = true

/-- What a denial code says of the packages: which of them denies, after which allowed.  Three codes
are never given. -/
def Explains (p : NamespacePolicy) (i : PolicyDecisionInput) : DenialCode → Prop
  | .vaultSealed => Rego.unsealRequired.deny (unsealDocument i) ≠ []
  | .crossNamespaceDenied => Rego.unsealRequired.allow (unsealDocument i) = true ∧
      Rego.crossNamespace.deny (crossDocument p i) ≠ []
  | .rateLimitExceeded => Rego.unsealRequired.allow (unsealDocument i) = true ∧
      Rego.crossNamespace.allow (crossDocument p i) = true ∧
      Rego.rateLimit.deny (rateDocument p i) ≠ []
  | .consumerNotAllowed => Rego.unsealRequired.allow (unsealDocument i) = true ∧
      Rego.crossNamespace.allow (crossDocument p i) = true ∧
      Rego.rateLimit.allow (rateDocument p i) = true ∧
      ∃ program, i.callerProgram = some program ∧
        consumersMatch p.allowedConsumers program = false
  | .tagsInvalid => Admitted p i ∧ (i.op = .put ∨ i.op = .rotate) ∧
      (Rego.tagValidation.deny (tagDocument p i) ≠ [] ∨ ¬KeysListed p i)
  | .administrativeDisabled => Admitted p i ∧ i.op = .reveal ∧
      .disabled ∈ Rego.revealAuthorization.deny (revealDocument p i)
  | .slashCommandMissing => Admitted p i ∧ i.op = .reveal ∧
      .disabled ∉ Rego.revealAuthorization.deny (revealDocument p i) ∧
      .slashMissing ∈ Rego.revealAuthorization.deny (revealDocument p i)
  | .oobConfirmationMissing => Admitted p i ∧ i.op = .reveal ∧
      .disabled ∉ Rego.revealAuthorization.deny (revealDocument p i) ∧
      .slashMissing ∉ Rego.revealAuthorization.deny (revealDocument p i) ∧
      .thresholdWithoutOob ∈ Rego.revealAuthorization.deny (revealDocument p i)
  | .deviceClassInsufficient => Admitted p i ∧ i.op = .reveal ∧
      Rego.revealAuthorization.allow (revealDocument p i) = true ∧
      p.devicePolicy.isSatisfiedBy i.boundDeviceClass = false
  | .sensitivityThresholdExceeded | .unsealPreconditionsFailed | .unknown => False

/-- A check passes, or denies with this code. -/
def Codes (check : Check) (code : DenialCode) : Prop :=
  check = none ∨ ∃ reason, check = some (code, reason)

theorem Codes.eq {check : Check} {code code' : DenialCode} {reason : PolicyError} (h : Codes check code)
    (hdeny : check = some (code', reason)) : code' = code := by
  rcases h with h | ⟨reason', h⟩
  · rw [h] at hdeny
    cases hdeny
  · rw [h] at hdeny
    exact (Prod.mk.inj (Option.some.inj hdeny)).1.symm

theorem unseal_codes (i : PolicyDecisionInput) : Codes (checkUnsealRequired i) .vaultSealed := by
  unfold Codes checkUnsealRequired
  cases i.vaultState with
  | unsealed => exact .inl rfl
  | sealed =>
    dsimp only
    split_ifs <;> simp
  | unsealing =>
    dsimp only
    split_ifs <;> simp
  | shuttingDown => exact .inr ⟨_, rfl⟩

theorem cross_codes (p : NamespacePolicy) (i : PolicyDecisionInput) :
    Codes (checkCrossNamespace p i) .crossNamespaceDenied := by
  unfold Codes checkCrossNamespace CrossNamespacePolicy.check
  split_ifs <;> simp

theorem rate_codes (p : NamespacePolicy) (i : PolicyDecisionInput) :
    Codes (checkRateLimit p i) .rateLimitExceeded := by
  unfold Codes checkRateLimit RateLimit.check
  cases hentry : p.rateLimit.perClass i.currentRateWindow.opClass with
  | none => simp [hentry]
  | some entry =>
    by_cases hwindow : i.currentRateWindow.windowSeconds = entry.windowSeconds <;>
      by_cases hcount : entry.maxCount ≤ i.currentRateWindow.countInWindow <;>
      simp [hentry, hwindow, hcount]

theorem consumers_codes (p : NamespacePolicy) (i : PolicyDecisionInput) :
    Codes (checkAllowedConsumers p i) .consumerNotAllowed := by
  unfold Codes checkAllowedConsumers
  cases i.callerProgram with
  | none => exact .inl rfl
  | some program =>
    dsimp only
    split_ifs <;> simp

theorem tags_codes (p : NamespacePolicy) (i : PolicyDecisionInput) :
    Codes (checkTags p i) .tagsInvalid := by
  unfold Codes checkTags
  split_ifs with hop
  · exact .inl rfl
  · cases p.tagsRules.validate i.tags (i.sensitivity.getD .low) <;> simp

theorem checkTags_writes (h : checkTags p i ≠ none) : i.op = .put ∨ i.op = .rotate := by
  by_contra hop
  refine h ?_
  unfold checkTags
  rw [if_pos]
  simpa [not_or] using hop

variable {code : DenialCode} {reason : PolicyError}

/-- What a reveal is denied for. -/
theorem checkReveal_codes (hadmitted : Admitted p i) (hop : i.op = .reveal)
    (h : checkReveal p i = some (code, reason)) : Explains p i code := by
  have hdisabled : .disabled ∈ Rego.revealAuthorization.deny (revealDocument p i) ↔
      p.reveal.allowed = false := by
    simp [Rego.revealAuthorization, Rego.confirmationDenials, revealDocument]
  have hslash : .slashMissing ∈ Rego.revealAuthorization.deny (revealDocument p i) ↔
      i.operatorConfirmation.slashCommand = false ∧
        i.operatorConfirmation.signedConfigFlagValid = false := by
    simp [Rego.revealAuthorization, Rego.confirmationDenials, revealDocument, hop, AuditOp.display]
  have hoob : .thresholdWithoutOob ∈ Rego.revealAuthorization.deny (revealDocument p i) ↔
      oobRequiredFor p.reveal (i.sensitivity.getD .low) = true ∧
        i.operatorConfirmation.oobAck = false := by
    have hmeets : Rego.meetsThreshold (revealDocument p i) =
        oobRequiredFor p.reveal (i.sensitivity.getD .low) := by
      unfold Rego.meetsThreshold
      rw [thresholdLevel_eq, show (revealDocument p i).sensitivity =
        (i.sensitivity.getD .low).display from rfl, sensitivityOrdinal_display]
      rfl
    simp only [Rego.revealAuthorization, Rego.confirmationDenials, hmeets, List.mem_append,
      Rego.mem_rule]
    simp [revealDocument, hop, AuditOp.display]
  unfold checkReveal at h
  dsimp only at h
  split_ifs at h with h₁ h₂ h₃ h₄ h₅
  · obtain ⟨rfl, -⟩ := Prod.mk.inj (Option.some.inj h)
    exact ⟨hadmitted, hop, hdisabled.mpr (by simpa using h₁)⟩
  · obtain ⟨rfl, -⟩ := Prod.mk.inj (Option.some.inj h)
    exact ⟨hadmitted, hop, mt hdisabled.mp (by simpa using h₁), hslash.mpr (by simpa using h₂)⟩
  · obtain ⟨rfl, -⟩ := Prod.mk.inj (Option.some.inj h)
    exact ⟨hadmitted, hop, mt hdisabled.mp (by simpa using h₁), mt hslash.mp (by simpa using h₂),
      hoob.mpr (by simpa using h₃)⟩
  · -- A reveal of high sensitivity has been asked for its confirmation already.
    simp only [Bool.and_eq_true, decide_eq_true_eq, Bool.not_eq_true'] at h₃ h₄
    rw [h₄.1] at h₃
    exact absurd ⟨oobRequiredFor_high p.reveal, h₄.2⟩ h₃
  · obtain ⟨rfl, -⟩ := Prod.mk.inj (Option.some.inj h)
    refine ⟨hadmitted, hop, ?_, by simpa using h₅⟩
    refine (confirmed_iff hop).mpr ⟨by simpa using h₁, ?_, fun hneeded => ?_⟩
    · simpa [or_iff_not_imp_left] using h₂
    · simpa [hneeded] using h₃

theorem deny_of_allow {I D : Type} {P : Rego.Package I D} {x : I} (hconsistent : P.Consistent x)
    (hdenied : ¬P.allow x = true) : P.deny x ≠ [] :=
  mt hconsistent.mpr hdenied

/-- **Every denial is explained by a package**: its code names the first package that denies, or the
check beside the packages, and all that were asked before allow. -/
theorem denial_explained (h : evaluate p i = .deny code reason) : Explains p i code := by
  have hfirst : (checks p i).findSome? id = some (code, reason) := by
    unfold evaluate at h
    cases hd : (checks p i).findSome? id with
    | none => simp [hd] at h
    | some d => simpa [hd, Prod.ext_iff] using h
  unfold checks at hfirst
  have hne : ∀ {check : Check}, check = some (code, reason) → check ≠ none := by
    rintro check rfl
    exact Option.some_ne_none _
  cases hunseal : checkUnsealRequired i with
  | some d =>
    obtain rfl : d = (code, reason) := by simpa [hunseal] using hfirst
    obtain rfl := (unseal_codes i).eq hunseal
    exact deny_of_allow (Rego.unsealRequired_consistent _) (mt unseal_agrees.mpr (hne hunseal))
  | none =>
  have hseal := unseal_agrees.mp hunseal
  cases hcross : checkCrossNamespace p i with
  | some d =>
    obtain rfl : d = (code, reason) := by simpa [hunseal, hcross] using hfirst
    obtain rfl := (cross_codes p i).eq hcross
    exact ⟨hseal, deny_of_allow (Rego.crossNamespace_consistent _) (mt cross_agrees.mpr (hne hcross))⟩
  | none =>
  have himport := cross_agrees.mp hcross
  cases hrate : checkRateLimit p i with
  | some d =>
    obtain rfl : d = (code, reason) := by simpa [hunseal, hcross, hrate] using hfirst
    obtain rfl := (rate_codes p i).eq hrate
    exact ⟨hseal, himport,
      deny_of_allow (Rego.rateLimit_consistent _) (mt rate_agrees.mpr (hne hrate))⟩
  | none =>
  have hlimit := rate_agrees.mp hrate
  cases hconsumers : checkAllowedConsumers p i with
  | some d =>
    obtain rfl : d = (code, reason) := by simpa [hunseal, hcross, hrate, hconsumers] using hfirst
    obtain rfl := (consumers_codes p i).eq hconsumers
    have hrefused := mt consumers_none.mpr (hne hconsumers)
    push Not at hrefused
    obtain ⟨program, hprogram, hmatch⟩ := hrefused
    exact ⟨hseal, himport, hlimit, program, hprogram, by simpa using hmatch⟩
  | none =>
  have hadmitted : Admitted p i := ⟨hseal, himport, hlimit, consumers_none.mp hconsumers⟩
  cases htags : checkTags p i with
  | some d =>
    obtain rfl : d = (code, reason) := by simpa [hunseal, hcross, hrate, hconsumers, htags] using hfirst
    obtain rfl := (tags_codes p i).eq htags
    have hop := checkTags_writes (hne htags)
    refine ⟨hadmitted, hop, ?_⟩
    by_contra hpass
    push Not at hpass
    obtain ⟨hdeny, hkeys⟩ := hpass
    have hallow := (Rego.tagValidation_consistent (tagDocument p i)).mpr hdeny
    exact hne htags ((tags_agree hop).mpr ⟨hallow, hkeys⟩).1
  | none =>
  simp only [hunseal, hcross, hrate, hconsumers, htags, List.findSome?_cons, id] at hfirst
  by_cases hop : i.op = .reveal
  · rw [if_pos hop, if_neg (by rw [hop]; decide)] at hfirst
    have hreveal : checkReveal p i = some (code, reason) := by
      cases hcheck : checkReveal p i with
      | none => simp [hcheck] at hfirst
      | some d => simpa [hcheck] using hfirst
    exact checkReveal_codes hadmitted hop hreveal
  · rw [if_neg hop, unsealOpState_none hunseal] at hfirst
    simp at hfirst

/-! ### An unconfirmed reveal -/

/-- A policy that allows reveals. -/
def samplePolicy : NamespacePolicy where
  reveal := ⟨true, .high, true⟩
  rateLimit := ⟨fun _ => some ⟨10, 60⟩⟩
  allowedConsumers := []
  tagsRules := ⟨[], [], []⟩
  crossNamespace := ⟨false, []⟩
  devicePolicy := ⟨.software⟩

/-- A reveal of a high secret. -/
def sampleInput : PolicyDecisionInput where
  op := .reveal
  sessionNamespace := sampleLabel
  targetNamespace := sampleLabel
  sensitivity := some .high
  operatorConfirmation := ⟨true, false, false⟩
  vaultState := .unsealed
  currentRateWindow := ⟨.reveals, 0, 60⟩
  boundDeviceClass := .software
  tags := []
  callerProgram := none

theorem unconfirmed_reveal_explained :
    evaluate samplePolicy sampleInput = .deny .oobConfirmationMissing .oobConfirmationMissing ∧
    Explains samplePolicy sampleInput .oobConfirmationMissing := by
  have h : evaluate samplePolicy sampleInput =
      .deny .oobConfirmationMissing .oobConfirmationMissing := by decide
  exact ⟨h, denial_explained h⟩

/-! ### Preconditions of an unseal -/

/-- What `unseal_preconditions` is asked. -/
def preconditionsDocument (u : UnsealPreconditions) : Rego.UnsealPreconditionsInput :=
  ⟨profileDisplay u.securityProfile, u.mlockSucceeded, u.entropySeeded, u.keychainReachable⟩

theorem profileDisplay_injective : Function.Injective profileDisplay := by
  intro x y h
  cases x <;> cases y <;> first | rfl | exact absurd h (by decide)

theorem unsealPreconditions_allow (u : UnsealPreconditions) :
    Rego.unsealPreconditions.allow (preconditionsDocument u) = true ↔ u.entropySeeded = true ∧
      (u.securityProfile = .paranoid → u.mlockSucceeded = true) ∧
      (u.securityProfile ≠ .relaxed → u.keychainReachable = true) := by
  have hprofile : profileDisplay u.securityProfile ∈ Rego.profiles := by
    cases u.securityProfile <;> decide
  have hparanoid : profileDisplay u.securityProfile = "paranoid" ↔ u.securityProfile = .paranoid :=
    profileDisplay_injective.eq_iff (b := SecurityProfile.paranoid)
  have hrelaxed : profileDisplay u.securityProfile = "relaxed" ↔ u.securityProfile = .relaxed :=
    profileDisplay_injective.eq_iff (b := SecurityProfile.relaxed)
  simp only [Rego.unsealPreconditions, Rego.mlockOk, Rego.keychainOk, preconditionsDocument, hprofile,
    hparanoid, hrelaxed, List.contains_iff_mem, Bool.and_eq_true, Bool.or_eq_true, decide_eq_true_eq, Ne,
    true_and]
  tauto

/-- What the identity asks before an unseal begins is what the package asks. -/
theorem validate_agrees (u : UnsealPreconditions) :
    u.validate = .ok () ↔ Rego.unsealPreconditions.allow (preconditionsDocument u) = true := by
  rw [unsealPreconditions_allow]
  unfold UnsealPreconditions.validate
  split_ifs with hentropy hmlock hreachable
  · simp_all
  · simp_all
  · simp_all
  · have hkeychain : u.securityProfile ≠ .relaxed → u.keychainReachable = true := fun hprofile => by
      by_contra hno
      exact hreachable ⟨by simpa using hno, hprofile⟩
    simp_all

/-- The sub-policy of a namespace asks the same. -/
theorem check_agrees (u : UnsealPreconditions) :
    (UnsealPreconditionsPolicy.forProfile u.securityProfile).check u.securityProfile
        ⟨u.mlockSucceeded, u.entropySeeded, u.keychainReachable⟩ = .ok () ↔
      Rego.unsealPreconditions.allow (preconditionsDocument u) = true := by
  rw [unsealPreconditions_allow]
  unfold UnsealPreconditionsPolicy.check UnsealPreconditionsPolicy.forProfile
  split_ifs with h₁ h₂ h₃ <;> simp_all

theorem argon2id_agrees (mCost tCost pCost : Nat) :
    Argon2idMinFloor.default.satisfies mCost tCost pCost =
      Rego.argon2idParameters.allow ⟨.number mCost, .number tCost, .number pCost⟩ := by
  change (decide (65536 ≤ mCost) && decide (3 ≤ tCost) && decide (1 ≤ pCost)) = _
  rw [Bool.eq_iff_iff]
  simp only [Rego.argon2idParameters, Rego.CostField.reaches, Bool.and_eq_true, decide_eq_true_iff]
  norm_cast

end MerkleVault.Policy.Agreement
