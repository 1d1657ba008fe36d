import MerkleVault.Types
import Mathlib

/-! # The Rego Policies

The packages under `docs/arch/policies`.  A package answers twice: whether it allows an input, and the
set of its denials.  An input is a document that is well-typed: what its package reads without asking
for it is there, with the type that the package documents.  What a package does ask for may be missing
(associated data, the threshold of a reveal policy), or anything at all (the costs of Argon2id).

* `Package.Consistent`: a package allows an input exactly when it has no denial for it;
* `rego_consistent`: which packages do on which inputs. -/

namespace MerkleVault.Policy.Rego

open MerkleVault.Types

/-! ### Packages -/

variable {I D : Type}

/-- A package: whether it allows an input, and what it denies it with. -/
structure Package (I D : Type) where
  allow : I → Bool
  deny : I → List D

/-- The two answers agree. -/
def Package.Consistent (P : Package I D) (i : I) : Prop := P.allow i = true ↔ P.deny i = []

/-- `deny contains msg if body`. -/
def rule (body : Bool) (msg : D) : List D := if body then [msg] else []

@[simp] theorem rule_eq_nil {body : Bool} {msg : D} : rule body msg = [] ↔ body = false := by
  cases body <;> simp [rule]

@[simp] theorem mem_rule {body : Bool} {msg d : D} : d ∈ rule body msg ↔ body = true ∧ d = msg := by
  cases body <;> simp [rule]

/-! ### `unseal_required` -/

/-- `vault_state` and `op`, which are there as texts. -/
structure UnsealRequiredInput where
  vaultState : String
  op : String

/-- The denials of `unseal_required`. -/
inductive UnsealRequiredDenial
  | sealedVault | unsealingVault | shuttingDown | unknownState
deriving DecidableEq, Repr

/-- `unseal_required`, by the state of the vault and the operation. -/
def unsealRequired : Package UnsealRequiredInput UnsealRequiredDenial where
  allow i := i.vaultState = "sealed" && i.op = "unseal" ||
    i.vaultState = "unsealing" && i.op = "unseal" ||
    i.vaultState = "unsealing" && i.op = "doctor" || i.vaultState = "unsealed"
  deny i :=
    rule (i.vaultState = "sealed" && i.op ≠ "unseal") .sealedVault ++
    rule (i.vaultState = "unsealing" && i.op ∉ ["unseal", "doctor"]) .unsealingVault ++
    rule (i.vaultState = "shutting_down") .shuttingDown ++
    rule (i.vaultState ∉ ["sealed", "unsealing", "unsealed", "shutting_down"]) .unknownState

/-! ### `cross_namespace` -/

/-- The labels of `session` and `target`, and the part `policy.cross_namespace`; all of them are there. -/
structure CrossNamespaceInput where
  boundNamespaceLabel : String
  targetNamespaceLabel : String
  allowed : Bool
  allowedImports : List String

/-- The denials of `cross_namespace`. -/
inductive CrossNamespaceDenial
  | globallyDisabled | notImported | unboundSession | noTarget
deriving DecidableEq, Repr

/-- `cross_namespace`: the bound namespace itself, or one that it imports. -/
def crossNamespace : Package CrossNamespaceInput CrossNamespaceDenial where
  allow i :=
    i.boundNamespaceLabel ≠ "" && i.targetNamespaceLabel ≠ "" &&
      i.boundNamespaceLabel = i.targetNamespaceLabel ||
    i.boundNamespaceLabel ≠ "" && i.targetNamespaceLabel ≠ "" &&
      i.boundNamespaceLabel ≠ i.targetNamespaceLabel && i.allowed &&
      i.allowedImports.contains i.targetNamespaceLabel
  deny i :=
    rule (i.boundNamespaceLabel ≠ i.targetNamespaceLabel && !i.allowed) .globallyDisabled ++
    rule (i.boundNamespaceLabel ≠ i.targetNamespaceLabel && i.allowed &&
      !i.allowedImports.contains i.targetNamespaceLabel) .notImported ++
    rule (i.boundNamespaceLabel = "") .unboundSession ++
    rule (i.targetNamespaceLabel = "") .noTarget

/-! ### `rate_limit` -/

/-- An element of `policy.rate_limits`, whose numbers are natural numbers. -/
structure RateLimitRow where
  opClass : String
  maxCount : Nat
  windowSeconds : Nat

/-- `op_class`, the entries, and `window`; all of them are there. -/
structure RateLimitInput where
  opClass : String
  rateLimits : List RateLimitRow
  count : Nat
  seconds : Nat

/-- The denials of `rate_limit`, with the row that a message names. -/
inductive RateLimitDenial
  | unknownClass | noEntry | exceeded (row : RateLimitRow) | windowMismatch (row : RateLimitRow)

/-- The operation classes that the package knows. -/
def validOpClasses : List String := ["plaintext_reads", "use_token_resolves", "reveals"]

/-- The rows of the input's operation class. -/
def matchingEntries (i : RateLimitInput) : List RateLimitRow :=
  i.rateLimits.filter fun row => row.opClass = i.opClass

/-- The denials, in the order of the rules. -/
def rateLimitDenials (i : RateLimitInput) : List RateLimitDenial :=
  rule (!validOpClasses.contains i.opClass) .unknownClass ++
  rule (validOpClasses.contains i.opClass && (matchingEntries i).isEmpty) .noEntry ++
  (matchingEntries i).flatMap (fun row => rule (decide (row.maxCount ≤ i.count)) (.exceeded row)) ++
  (matchingEntries i).flatMap fun row => rule (decide (i.seconds ≠ row.windowSeconds))
    (.windowMismatch row)

/-- `rate_limit`: a row of the class, and nothing denied. -/
def rateLimit : Package RateLimitInput RateLimitDenial where
  allow i := (rateLimitDenials i).isEmpty && !(matchingEntries i).isEmpty
  deny := rateLimitDenials

/-! ### `tag_validation` -/

/-- The tags and the sensitivity of `secret`, and `policy.tags_rules`; all of them are there. -/
structure TagInput where
  tags : List (String × String)
  sensitivity : String
  required : List String
  forbiddenValues : List String

/-- The denials of `tag_validation`, with the tag that a message names. -/
inductive TagDenial
  | missing (key : String) | forbidden (key value : String) | highWithoutEnv
  | unknownKey (key : String) | notSlug (key value : String)

/-- The tag keys that the package knows. -/
def allowedTagKeys : List String := ["env", "project", "role", "provider", "team"]

/-- `^[a-z0-9]([a-z0-9\-]{0,61}[a-z0-9])?$`. -/
def tagValuePattern (s : String) : Bool :=
  match s.toList with
  | [] => false
  | c :: cs => isLowerAlnum c && decide (cs.length ≤ 62) && cs.dropLast.all isSlugChar &&
      cs.getLast?.all isLowerAlnum

/-- The keys of the secret's tags. -/
def presentKeys (i : TagInput) : List String := i.tags.map (·.1)

/-- The denials, in the order of the rules. -/
def tagDenials (i : TagInput) : List TagDenial :=
  i.required.flatMap (fun key => rule (!(presentKeys i).contains key) (.missing key)) ++
  i.tags.flatMap (fun t => rule (i.forbiddenValues.contains t.2) (.forbidden t.1 t.2)) ++
  rule (i.sensitivity = "high" && !(presentKeys i).contains "env") .highWithoutEnv ++
  i.tags.flatMap (fun t => rule (!allowedTagKeys.contains t.1) (.unknownKey t.1)) ++
  i.tags.flatMap fun t => rule (!tagValuePattern t.2) (.notSlug t.1 t.2)

/-- `tag_validation`: nothing denied. -/
def tagValidation : Package TagInput TagDenial where
  allow i := (tagDenials i).isEmpty
  deny := tagDenials

/-! ### `reveal_authorization` and `sensitivity_oob` -/

/-- What both packages read; only `require_oob_above` may be missing or null. -/
structure RevealInput where
  op : String
  sensitivity : String
  slashCommand : Bool
  oobAck : Bool
  allowed : Bool
  requireOobAbove : Option String

/-- The denials that the two packages about reveals share. -/
inductive RevealDenial
  | disabled | slashMissing | highWithoutOob | thresholdWithoutOob | invalidThreshold | notReveal
deriving DecidableEq, Repr

/-- The order of the sensitivities, undefined on other texts. -/
def sensitivityOrdinal : String → Option Nat
  | "low" => some 0
  | "medium" => some 1
  | "high" => some 2
  | _ => none

/-- The level of the threshold, when it is one of the three. -/
def thresholdLevel (i : RevealInput) : Option Nat := i.requireOobAbove.bind sensitivityOrdinal

/-- `secret_level >= threshold_level`, undefined when one of them is. -/
def meetsThreshold (i : RevealInput) : Bool :=
  match sensitivityOrdinal i.sensitivity, thresholdLevel i with
  | some secret, some threshold => decide (threshold ≤ secret)
  | _, _ => false

/-- The secret is less sensitive than the threshold; undefined texts do not compare. -/
def belowThreshold (i : RevealInput) : Bool :=
  match sensitivityOrdinal i.sensitivity, thresholdLevel i with
  | some secret, some threshold => decide (secret < threshold)
  | _, _ => false

/-- The denials of both packages for a reveal that is not confirmed. -/
def confirmationDenials (i : RevealInput) : List RevealDenial :=
  rule (i.op = "reveal" && !i.slashCommand) .slashMissing ++
  rule (i.op = "reveal" && i.sensitivity = "high" && !i.oobAck) .highWithoutOob ++
  rule (i.op = "reveal" && meetsThreshold i && !i.oobAck) .thresholdWithoutOob ++
  rule (i.op = "reveal" && (thresholdLevel i).isNone) .invalidThreshold

/-- The two bodies with which both packages allow a reveal. -/
def confirmed (i : RevealInput) : Bool :=
  i.op = "reveal" && i.allowed && i.slashCommand && belowThreshold i ||
  i.op = "reveal" && i.allowed && i.slashCommand && i.oobAck

/-- `reveal_authorization`. -/
def revealAuthorization : Package RevealInput RevealDenial where
  allow := confirmed
  deny i := rule (!i.allowed) .disabled ++ confirmationDenials i ++ rule (i.op ≠ "reveal") .notReveal

/-- `sensitivity_oob`, which leaves other operations alone. -/
def sensitivityOob : Package RevealInput RevealDenial where
  allow i := confirmed i || i.op ≠ "reveal"
  deny i := rule (i.op = "reveal" && !i.allowed) .disabled ++ confirmationDenials i

/-! ### `unseal_preconditions` -/

/-- The profile is there as a text, and the three observations as booleans. -/
structure UnsealPreconditionsInput where
  securityProfile : String
  mlockSucceeded : Bool
  entropySeeded : Bool
  keychainReachable : Bool

/-- The denials of `unseal_preconditions`. -/
inductive UnsealPreconditionsDenial
  | mlockFailed | entropyNotSeeded | keychainNotReachable | unknownProfile
deriving DecidableEq, Repr

/-- The security profiles that the package knows. -/
def profiles : List String := ["relaxed", "balanced", "paranoid"]

/-- Memory is locked where the profile asks for it. -/
def mlockOk (i : UnsealPreconditionsInput) : Bool :=
  i.securityProfile = "paranoid" && i.mlockSucceeded || i.securityProfile ≠ "paranoid"

/-- The keychain is reachable where the profile asks for it. -/
def keychainOk (i : UnsealPreconditionsInput) : Bool :=
  i.securityProfile = "relaxed" || i.securityProfile ≠ "relaxed" && i.keychainReachable

/-- `unseal_preconditions`, by the security profile. -/
def unsealPreconditions : Package UnsealPreconditionsInput UnsealPreconditionsDenial where
  allow i := profiles.contains i.securityProfile && i.entropySeeded && mlockOk i && keychainOk i
  deny i :=
    rule (i.securityProfile = "paranoid" && !i.mlockSucceeded) .mlockFailed ++
    rule (!i.entropySeeded) .entropyNotSeeded ++
    rule (!i.keychainReachable && i.securityProfile ≠ "relaxed") .keychainNotReachable ++
    rule (!profiles.contains i.securityProfile) .unknownProfile

/-! ### `argon2id_parameters` -/

/-- A field of the input.  Values of all types are ordered: null and the booleans come before the
numbers, texts and collections after them. -/
inductive CostField
  | missing | beforeNumbers | number (q : ℚ) | afterNumbers

/-- A comparison with a missing field does not hold. -/
def CostField.below (floor : ℚ) : CostField → Bool
  | missing => false
  | beforeNumbers => true
  | number q => q < floor
  | afterNumbers => false

/-- `field >= floor` in the order of Rego, where numbers stand between other values. -/
def CostField.reaches (floor : ℚ) : CostField → Bool
  | missing => false
  | beforeNumbers => false
  | number q => floor ≤ q
  | afterNumbers => true

/-- `is_number`. -/
def CostField.isNumber : CostField → Bool
  | number _ => true
  | _ => false

/-- The costs, of any type. -/
structure Argon2idInput where
  mCost : CostField
  tCost : CostField
  pCost : CostField

/-- The denials of `argon2id_parameters`. -/
inductive Argon2idDenial
  | mBelow | tBelow | pBelow | mMissing | tMissing | pMissing
deriving DecidableEq, Repr

/-- `argon2id_parameters`: each cost reaches its floor. -/
def argon2idParameters : Package Argon2idInput Argon2idDenial where
  allow i := i.mCost.reaches 65536 && i.tCost.reaches 3 && i.pCost.reaches 1
  deny i :=
    rule (i.mCost.below 65536) .mBelow ++ rule (i.tCost.below 3) .tBelow ++
    rule (i.pCost.below 1) .pBelow ++ rule (!i.mCost.isNumber) .mMissing ++
    rule (!i.tCost.isNumber) .tMissing ++ rule (!i.pCost.isNumber) .pMissing

/-! ### `ad_binding` -/

/-- The operation, both handles, and the associated data when there is any. -/
structure AdBindingInput where
  op : String
  handle : String
  rowHandle : String
  associatedData : Option String

/-- The denials of `ad_binding`. -/
inductive AdBindingDenial
  | missingOnWrite | missingOnRead | mismatchOnWrite | mismatchOnRead
deriving DecidableEq, Repr

/-- The operations that bind a value to its handle. -/
def adWrites : List String := ["put", "rotate"]

/-- The operations that open a bound value. -/
def adReads : List String := ["reveal", "get", "use"]

/-- A handle of the write or of the read path. -/
def adEqualsHandle (i : AdBindingInput) : Bool :=
  adWrites.contains i.op && i.associatedData.any (· = i.handle) ||
    adReads.contains i.op && i.associatedData.any (· = i.rowHandle)

/-- The denials, in the order of the rules. -/
def adBindingDenials (i : AdBindingInput) : List AdBindingDenial :=
  rule (adWrites.contains i.op && i.associatedData.isNone) AdBindingDenial.missingOnWrite ++
  rule (adReads.contains i.op && i.associatedData.isNone) AdBindingDenial.missingOnRead ++
  rule (adWrites.contains i.op && i.associatedData.any (· ≠ i.handle)) AdBindingDenial.mismatchOnWrite ++
  rule (adReads.contains i.op && i.associatedData.any (· ≠ i.rowHandle)) AdBindingDenial.mismatchOnRead

/-- `ad_binding`: a known operation with the right associated data. -/
def adBinding : Package AdBindingInput AdBindingDenial where
  allow i := (adWrites ++ adReads).contains i.op && i.associatedData.isSome &&
    (adBindingDenials i).isEmpty && adEqualsHandle i
  deny := adBindingDenials

/-! ### Consistency -/

theorem unsealRequired_consistent (i : UnsealRequiredInput) : unsealRequired.Consistent i := by
  simp only [Package.Consistent, unsealRequired, List.append_eq_nil_iff, rule_eq_nil]
  by_cases h₁ : i.vaultState = "sealed"
  · simp [h₁]
  by_cases h₂ : i.vaultState = "unsealing"
  · simp [h₂]
    tauto
  by_cases h₃ : i.vaultState = "unsealed"
  · simp [h₃]
  by_cases h₄ : i.vaultState = "shutting_down"
  · simp [h₄]
  · simp [h₁, h₂, h₃, h₄]

theorem crossNamespace_consistent (i : CrossNamespaceInput) : crossNamespace.Consistent i := by
  simp only [Package.Consistent, crossNamespace, List.append_eq_nil_iff, rule_eq_nil]
  by_cases hsame : i.boundNamespaceLabel = i.targetNamespaceLabel
  · simp [hsame]
  · cases i.allowed with
    | false => simp [hsame]
    | true =>
      simp [hsame]
      tauto

theorem rateLimit_consistent (i : RateLimitInput) : rateLimit.Consistent i := by
  have hentries : rateLimitDenials i = [] → matchingEntries i ≠ [] := by
    intro h hnone
    simp only [rateLimitDenials, List.append_eq_nil_iff, rule_eq_nil] at h
    obtain ⟨⟨⟨hclass, hentry⟩, -⟩, -⟩ := h
    rw [Bool.not_eq_false'] at hclass
    rw [hclass, hnone] at hentry
    cases hentry
  simp only [Package.Consistent, rateLimit, Bool.and_eq_true, List.isEmpty_iff, Bool.not_eq_true',
    List.isEmpty_eq_false_iff]
  exact ⟨fun h => h.1, fun h => ⟨h, hentries h⟩⟩

theorem tagValidation_consistent (i : TagInput) : tagValidation.Consistent i := by
  simp [Package.Consistent, tagValidation]

/-- A confirmed reveal is decided when its threshold is known, an unconfirmed one when its secret's
sensitivity is. -/
def Decided (i : RevealInput) : Prop :=
  i.op = "reveal" → i.allowed = true → i.slashCommand = true →
    (i.oobAck = true → (thresholdLevel i).isSome = true) ∧
    (i.oobAck = false → (thresholdLevel i).isSome = true →
      (sensitivityOrdinal i.sensitivity).isSome = true)

/-- A threshold that is known is met by a secret of high sensitivity. -/
theorem meetsThreshold_of_high {i : RevealInput} {n : Nat} (hn : thresholdLevel i = some n)
    (hhigh : i.sensitivity = "high") : meetsThreshold i = true := by
  obtain ⟨text, -, hlevel⟩ := Option.bind_eq_some_iff.mp hn
  have hle : n ≤ 2 := by
    unfold sensitivityOrdinal at hlevel
    split at hlevel <;> simp at hlevel <;> omega
  simp [meetsThreshold, hn, hhigh, sensitivityOrdinal, hle]

theorem confirmation_iff (i : RevealInput) (hop : i.op = "reveal") (hallowed : i.allowed = true) :
    (confirmed i = true ↔ confirmationDenials i = []) ↔ Decided i := by
  simp only [confirmationDenials, confirmed, Decided, List.append_eq_nil_iff, rule_eq_nil, hop, hallowed]
  cases i.slashCommand with
  | false => simp
  | true =>
    cases hlevel : thresholdLevel i with
    | none =>
      have hbelow : belowThreshold i = false := by
        unfold belowThreshold
        rw [hlevel]
        cases sensitivityOrdinal i.sensitivity <;> rfl
      cases i.oobAck <;> simp [hbelow]
    | some threshold =>
      cases hsecret : sensitivityOrdinal i.sensitivity with
      | none =>
        have hbelow : belowThreshold i = false := by simp [belowThreshold, hsecret]
        have hmeets : meetsThreshold i = false := by simp [meetsThreshold, hsecret]
        have hhigh : i.sensitivity ≠ "high" := by
          intro hhigh
          rw [hhigh] at hsecret
          cases hsecret
        cases i.oobAck <;> simp [hbelow, hmeets, hhigh]
      | some secret =>
        have hmeets : meetsThreshold i = decide (threshold ≤ secret) := by
          simp [meetsThreshold, hsecret, hlevel]
        have hbelow : belowThreshold i = decide (secret < threshold) := by
          simp [belowThreshold, hsecret, hlevel]
        cases i.oobAck with
        | true => simp
        | false =>
          by_cases hle : threshold ≤ secret
          · simp [hmeets, hbelow, hle]
          · have hhigh : i.sensitivity ≠ "high" := fun hhigh => hle (by
              simpa [hmeets] using meetsThreshold_of_high hlevel hhigh)
            simp [hmeets, hbelow, hle, hhigh, Nat.lt_of_not_le hle]

theorem confirmationDenials_of_ne {i : RevealInput} (hop : i.op ≠ "reveal") :
    confirmationDenials i = [] := by
  simp [confirmationDenials, hop]

theorem revealAuthorization_consistent_iff (i : RevealInput) :
    revealAuthorization.Consistent i ↔ Decided i := by
  simp only [Package.Consistent, revealAuthorization, List.append_eq_nil_iff, rule_eq_nil]
  by_cases hop : i.op = "reveal"
  · cases hallowed : i.allowed with
    | false => simp [confirmed, Decided, hallowed]
    | true =>
      rw [← confirmation_iff i hop hallowed]
      simp [hop]
  · simp [confirmed, Decided, hop]

theorem sensitivityOob_consistent_iff (i : RevealInput) : sensitivityOob.Consistent i ↔ Decided i := by
  simp only [Package.Consistent, sensitivityOob, List.append_eq_nil_iff, rule_eq_nil]
  by_cases hop : i.op = "reveal"
  · cases hallowed : i.allowed with
    | false => simp [confirmed, Decided, hallowed, hop]
    | true =>
      rw [← confirmation_iff i hop hallowed]
      simp [hop]
  · simp [Decided, hop, confirmationDenials_of_ne hop]

theorem unsealPreconditions_consistent (i : UnsealPreconditionsInput) :
    unsealPreconditions.Consistent i := by
  simp only [Package.Consistent, unsealPreconditions, List.append_eq_nil_iff, rule_eq_nil, mlockOk,
    keychainOk]
  by_cases hprofile : i.securityProfile ∈ profiles
  · by_cases hparanoid : i.securityProfile = "paranoid"
    · simp [hparanoid, profiles]
      tauto
    · by_cases hrelaxed : i.securityProfile = "relaxed"
      · simp [hrelaxed, profiles]
      · simp [hprofile, hparanoid, hrelaxed]
  · simp [hprofile]

/-- The costs are numbers where they all reach their floors: a text does, and is denied nevertheless. -/
def NumericCosts (i : Argon2idInput) : Prop :=
  (i.mCost.reaches 65536 = true ∧ i.tCost.reaches 3 = true ∧ i.pCost.reaches 1 = true) →
    i.mCost.isNumber = true ∧ i.tCost.isNumber = true ∧ i.pCost.isNumber = true

/-- A field is not denied exactly if it is a number that reaches the floor. -/
theorem CostField.undenied_iff {floor : ℚ} {field : CostField} :
    (field.below floor = false ∧ field.isNumber = true) ↔
      field.reaches floor = true ∧ field.isNumber = true := by
  cases field <;> simp [below, reaches, isNumber]

theorem argon2idParameters_deny (i : Argon2idInput) : argon2idParameters.deny i = [] ↔
    (i.mCost.reaches 65536 = true ∧ i.tCost.reaches 3 = true ∧ i.pCost.reaches 1 = true) ∧
      i.mCost.isNumber = true ∧ i.tCost.isNumber = true ∧ i.pCost.isNumber = true := by
  simp only [argon2idParameters, List.append_eq_nil_iff, rule_eq_nil, Bool.not_eq_false']
  constructor
  · rintro ⟨⟨⟨⟨⟨hm, ht⟩, hp⟩, hm'⟩, ht'⟩, hp'⟩
    have hm := CostField.undenied_iff.mp ⟨hm, hm'⟩
    have ht := CostField.undenied_iff.mp ⟨ht, ht'⟩
    have hp := CostField.undenied_iff.mp ⟨hp, hp'⟩
    exact ⟨⟨hm.1, ht.1, hp.1⟩, hm', ht', hp'⟩
  · rintro ⟨⟨hm, ht, hp⟩, hm', ht', hp'⟩
    have hm := CostField.undenied_iff.mpr ⟨hm, hm'⟩
    have ht := CostField.undenied_iff.mpr ⟨ht, ht'⟩
    have hp := CostField.undenied_iff.mpr ⟨hp, hp'⟩
    exact ⟨⟨⟨⟨⟨hm.1, ht.1⟩, hp.1⟩, hm'⟩, ht'⟩, hp'⟩

theorem argon2idParameters_consistent_iff (i : Argon2idInput) :
    argon2idParameters.Consistent i ↔ NumericCosts i := by
  have hallow : argon2idParameters.allow i = true ↔
      i.mCost.reaches 65536 = true ∧ i.tCost.reaches 3 = true ∧ i.pCost.reaches 1 = true := by
    simp only [argon2idParameters, Bool.and_eq_true, and_assoc]
  rw [Package.Consistent, argon2idParameters_deny, hallow]
  exact ⟨fun h ha => (h.mp ha).2, fun h => ⟨fun ha => ⟨ha, h ha⟩, fun hd => hd.1⟩⟩

/-- **The binding of associated data** is decided for the operations that the package knows: it neither
allows nor denies another. -/
theorem adBinding_consistent_iff (i : AdBindingInput) :
    adBinding.Consistent i ↔ i.op ∈ adWrites ++ adReads := by
  have hknown : i.op ∈ adWrites ++ adReads ↔
      adWrites.contains i.op = true ∨ adReads.contains i.op = true := by
    rw [List.mem_append, List.contains_iff_mem, List.contains_iff_mem]
  have hdisjoint : adWrites.contains i.op = true → adReads.contains i.op = false := by
    intro hw
    simp only [adWrites, List.contains_iff_mem, List.mem_cons, List.not_mem_nil, or_false] at hw
    rcases hw with h | h <;> rw [h] <;> decide
  have hall : (adWrites ++ adReads).contains i.op =
      (adWrites.contains i.op || adReads.contains i.op) := by
    simp
  rw [hknown]
  simp only [Package.Consistent, adBinding, hall, adEqualsHandle, adBindingDenials]
  cases hw : adWrites.contains i.op <;> cases hr : adReads.contains i.op <;>
    cases i.associatedData <;> simp_all [rule]

/-- **The two answers of every package agree** on well-typed documents, but for three kinds.  A reveal
that is allowed and has its slash command, confirmed under a threshold that is no sensitivity, is allowed
and denied by both packages for reveals; not confirmed, for a sensitivity that is none, it is neither.
An operation that `ad_binding` does not know is neither allowed nor denied by it.  And costs that are no
numbers are allowed and denied when they come after the numbers. -/
theorem rego_consistent : (∀ i, unsealRequired.Consistent i) ∧ (∀ i, crossNamespace.Consistent i) ∧
    (∀ i, rateLimit.Consistent i) ∧ (∀ i, tagValidation.Consistent i) ∧
    (∀ i, unsealPreconditions.Consistent i) ∧
    (∀ i, argon2idParameters.Consistent i ↔ NumericCosts i) ∧
    (∀ i, adBinding.Consistent i ↔ i.op ∈ adWrites ++ adReads) ∧
    (∀ i, revealAuthorization.Consistent i ↔ Decided i) ∧
    ∀ i, sensitivityOob.Consistent i ↔ Decided i :=
  ⟨unsealRequired_consistent, crossNamespace_consistent, rateLimit_consistent,
    tagValidation_consistent, unsealPreconditions_consistent, argon2idParameters_consistent_iff,
    adBinding_consistent_iff, revealAuthorization_consistent_iff, sensitivityOob_consistent_iff⟩

end MerkleVault.Policy.Rego
