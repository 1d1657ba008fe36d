import MerkleVault.Lib.Encoding
import Mathlib

/-!
# The Shared Kernel

The value objects of `merkle-types`: identifiers, digests, timestamps, the closed enumerations with
their texts, and the `vault://<ns>/<cat>/<name>` handle.  A slug carries the match of its pattern as a
field, so a label, category or secret name that the parsers refuse cannot be built.

* `AuditOp.display_injective`, `CategoryName.asStr_injective`: the texts tell the values apart;
* `Handle.display_injective`: so does the text of a handle, its parts being free of `/`.
-/

namespace MerkleVault.Types

open MerkleVault.Lib.Encoding

/-! ### Text -/

/-- The characters with the Unicode property `White_Space`. -/
def isWhiteSpace (c : Char) : Bool :=
  let n := c.toNat
  (0x9 ≤ n && n ≤ 0xD) || n = 0x20 || n = 0x85 || n = 0xA0 || n = 0x1680 ||
    (0x2000 ≤ n && n ≤ 0x200A) || n = 0x2028 || n = 0x2029 || n = 0x202F || n = 0x205F || n = 0x3000

/-- `str::trim`. -/
def trim (cs : List Char) : List Char :=
  ((cs.dropWhile isWhiteSpace).reverse.dropWhile isWhiteSpace).reverse

/-! ### Identifiers and digests -/

/-- The sixteen bytes of a UUID. -/
abbrev Uuid := Vector UInt8 16

/-- `AuditEntryId`. -/
structure AuditEntryId where
  inner : Uuid
deriving DecidableEq

/-- `NamespaceId`. -/
structure NamespaceId where
  inner : Uuid
deriving DecidableEq

/-- `raw.to_string().parse::<NamespaceId>()`: the version number is checked. -/
def NamespaceId.ofUuid (raw : Uuid) : Option NamespaceId :=
  if raw[6] / 16 = 7 then some ⟨raw⟩ else none

/-- `SecretId`. -/
structure SecretId where
  inner : Uuid
deriving DecidableEq

/-- `ChallengeId`. -/
structure ChallengeId where
  inner : Uuid
deriving DecidableEq

/-- A BLAKE3 digest. -/
structure Blake3Hash where
  asBytes : Vector UInt8 32
deriving DecidableEq

/-- A BLAKE3 keyed MAC tag. -/
structure HmacSignature where
  asBytes : Vector UInt8 32
deriving DecidableEq

/-- A 32-byte key. -/
abbrev Key := Vector UInt8 32

/-- The all-zero sentinel that stands for the hash before the first entry. -/
def genesis : Blake3Hash := ⟨Vector.replicate 32 0⟩

/-- `u64::to_le_bytes`. -/
def toLeBytes (n : UInt64) : List UInt8 :=
  (List.range 8).map fun i => (n >>> (8 * UInt64.ofNat i)).toUInt8

/-! ### Timestamps -/

/-- A UTC instant: seconds since the epoch and nanoseconds within the second.  In a leap second the
nanoseconds run on past one billion, which only the last second of a minute allows. -/
structure Rfc3339Timestamp where
  timestamp : Int
  subsec : Nat
  subsec_lt : subsec < 2000000000
  leap : 1000000000 ≤ subsec → timestamp % 60 = 59
deriving DecidableEq

/-- The instant at a whole second. -/
def Rfc3339Timestamp.ofSeconds (t : Int) : Rfc3339Timestamp :=
  ⟨t, 0, by decide, fun h => absurd h (by decide)⟩

/-- The instant at microsecond precision, the precision of the canonical text. -/
def Rfc3339Timestamp.micros (t : Rfc3339Timestamp) : Int × Nat := (t.timestamp, t.subsec / 1000)

/-- The instant cut to whole microseconds. -/
def Rfc3339Timestamp.atMicros (t : Rfc3339Timestamp) : Rfc3339Timestamp where
  timestamp := t.timestamp
  subsec := t.subsec / 1000 * 1000
  subsec_lt := by
    have := t.subsec_lt
    omega
  leap := by
    intro h
    exact t.leap (by omega)

theorem Rfc3339Timestamp.atMicros_atMicros (t : Rfc3339Timestamp) : t.atMicros.atMicros = t.atMicros := by
  have h : t.subsec / 1000 * 1000 / 1000 * 1000 = t.subsec / 1000 * 1000 := by omega
  simp only [atMicros, h]

@[simp] theorem Rfc3339Timestamp.micros_atMicros (t : Rfc3339Timestamp) :
    t.atMicros.micros = t.micros := by
  have : t.subsec / 1000 * 1000 / 1000 = t.subsec / 1000 := by omega
  exact Prod.ext rfl this

/-- The derived order of `DateTime<Utc>`: seconds first, then nanoseconds. -/
def Rfc3339Timestamp.lt (a b : Rfc3339Timestamp) : Bool :=
  a.timestamp < b.timestamp || (a.timestamp == b.timestamp && a.subsec < b.subsec)

/-! ### Audit operations and outcomes -/

/-- The closed enumeration of auditable operations. -/
inductive AuditOp
  | auditQuery | init | backup | bind | categoryCreate | cryptoDecrypt | cryptoSign
  | crossEnvWarning | delete | describe | disasterRecovery | doctor | rebaseline | get
  | httpDownload | httpRequest | httpUpload | list | namespaceCreate | portForward | put | restore
  | reveal | rotate | search | seal | spawn | sshCopy | sshExec | unseal | use | useTokenResolved
  | writeTempfile
deriving DecidableEq, Repr

/-- `Display` of an operation. -/
def AuditOp.display : AuditOp → String
  | auditQuery => "audit_query"
  | init => "init"
  | backup => "backup"
  | bind => "bind"
  | categoryCreate => "category_create"
  | cryptoDecrypt => "crypto_decrypt"
  | cryptoSign => "crypto_sign"
  | crossEnvWarning => "cross_env_warning"
  | delete => "delete"
  | describe => "describe"
  | disasterRecovery => "disaster_recovery"
  | doctor => "doctor"
  | rebaseline => "rebaseline"
  | get => "get"
  | httpDownload => "http_download"
  | httpRequest => "http_request"
  | httpUpload => "http_upload"
  | list => "list"
  | namespaceCreate => "namespace_create"
  | portForward => "port_forward"
  | put => "put"
  | restore => "restore"
  | reveal => "reveal"
  | rotate => "rotate"
  | search => "search"
  | .seal => "seal"
  | spawn => "spawn"
  | sshCopy => "ssh_copy"
  | sshExec => "ssh_exec"
  | .unseal => "unseal"
  | use => "use"
  | useTokenResolved => "use_token_resolved"
  | writeTempfile => "write_tempfile"

/-- `FromStr` of an operation. -/
def AuditOp.fromStr : String → Option AuditOp
  | "audit_query" => some auditQuery
  | "init" => some init
  | "backup" => some backup
  | "bind" => some bind
  | "category_create" => some categoryCreate
  | "crypto_decrypt" => some cryptoDecrypt
  | "crypto_sign" => some cryptoSign
  | "cross_env_warning" => some crossEnvWarning
  | "delete" => some delete
  | "describe" => some describe
  | "disaster_recovery" => some disasterRecovery
  | "doctor" => some doctor
  | "rebaseline" => some rebaseline
  | "get" => some get
  | "http_download" => some httpDownload
  | "http_request" => some httpRequest
  | "http_upload" => some httpUpload
  | "list" => some list
  | "namespace_create" => some namespaceCreate
  | "port_forward" => some portForward
  | "put" => some put
  | "restore" => some restore
  | "reveal" => some reveal
  | "rotate" => some rotate
  | "search" => some search
  | "seal" => some .seal
  | "spawn" => some spawn
  | "ssh_copy" => some sshCopy
  | "ssh_exec" => some sshExec
  | "unseal" => some .unseal
  | "use" => some use
  | "use_token_resolved" => some useTokenResolved
  | "write_tempfile" => some writeTempfile
  | _ => none

theorem AuditOp.fromStr_display (op : AuditOp) : AuditOp.fromStr op.display = some op := by
  cases op <;> rfl

theorem AuditOp.display_injective : Function.Injective AuditOp.display := by
  intro a b h
  have := AuditOp.fromStr_display a
  rw [h, AuditOp.fromStr_display] at this
  exact (Option.some.inj this).symm

/-- How an operation ended. -/
inductive AuditOutcome
  | allow | deny | error
deriving DecidableEq, Repr

/-- `Display` of an outcome. -/
def AuditOutcome.display : AuditOutcome → String
  | allow => "allow"
  | deny => "deny"
  | error => "error"

/-- `FromStr` of an outcome. -/
def AuditOutcome.fromStr : String → Option AuditOutcome
  | "allow" => some allow
  | "deny" => some deny
  | "error" => some error
  | _ => none

theorem AuditOutcome.fromStr_display (o : AuditOutcome) : AuditOutcome.fromStr o.display = some o := by
  cases o <;> rfl

theorem AuditOutcome.display_injective : Function.Injective AuditOutcome.display := by
  intro a b h
  cases a <;> cases b <;> first | rfl | exact absurd h (by decide)

/-- Why an operation was denied. -/
structure DenialReason where
  asStr : String
deriving DecidableEq, Repr

/-- Sensitivity of a secret, in increasing order. -/
inductive Sensitivity
  | low | medium | high
deriving DecidableEq, Repr

/-- `Display` of a sensitivity. -/
def Sensitivity.display : Sensitivity → String
  | low => "low"
  | medium => "medium"
  | high => "high"

/-- `FromStr` of a sensitivity. -/
def Sensitivity.fromStr : String → Option Sensitivity
  | "low" => some low
  | "medium" => some medium
  | "high" => some high
  | _ => none

theorem Sensitivity.fromStr_display (s : Sensitivity) : Sensitivity.fromStr s.display = some s := by
  cases s <;> rfl

/-- The position in the derived order `Low < Medium < High`. -/
def Sensitivity.rank : Sensitivity → Nat
  | low => 0
  | medium => 1
  | high => 2

theorem Sensitivity.display_injective : Function.Injective Sensitivity.display := by
  intro a b h
  cases a <;> cases b <;> first | rfl | exact absurd h (by decide)

/-! ### Slugs -/

/-- `[a-z]`. -/
def isLowerAlpha (c : Char) : Bool := 'a' ≤ c && c ≤ 'z'

/-- `[0-9]`. -/
def isDigitChar (c : Char) : Bool := '0' ≤ c && c ≤ '9'

/-- `[a-z0-9]`. -/
def isLowerAlnum (c : Char) : Bool := isLowerAlpha c || isDigitChar c

/-- `[a-z0-9-]`. -/
def isSlugChar (c : Char) : Bool := isLowerAlnum c || c == '-'

/-- `[0-9a-f]`. -/
def isHexDigit (c : Char) : Bool := isDigitChar c || ('a' ≤ c && c ≤ 'f')

/-- `^[a-z][a-z0-9\-]{1,61}[a-z0-9]$`, the pattern of `NS_LABEL_RE` and `SECRET_NAME_RE`. -/
def slugRe (s : String) : Bool :=
  match s.toList with
  | [] => false
  | c :: cs => isLowerAlpha c && decide (2 ≤ cs.length) && decide (cs.length ≤ 62) &&
      cs.dropLast.all isSlugChar && cs.getLast?.any isLowerAlnum

/-- `^cwd-[0-9a-f]{16}$`. -/
def nsCwdRe (s : String) : Bool :=
  match s.toList with
  | 'c' :: 'w' :: 'd' :: '-' :: cs => cs.length == 16 && cs.all isHexDigit
  | _ => false

/-- `^[a-z][a-z0-9\-]*$`. -/
def categorySlugRe (s : String) : Bool :=
  match s.toList with
  | [] => false
  | c :: cs => isLowerAlpha c && cs.all isSlugChar

/-- `^[a-z0-9]([a-z0-9\-]{0,62}[a-z0-9])?$`. -/
def tagValueRe (s : String) : Bool :=
  match s.toList with
  | [] => false
  | c :: cs => isLowerAlnum c && decide (cs.length ≤ 63) && cs.dropLast.all isSlugChar &&
      cs.getLast?.all isLowerAlnum

theorem slugRe_chars {s : String} (h : slugRe s = true) : ∀ c ∈ s.toList, isSlugChar c = true := by
  unfold slugRe at h
  split at h
  · cases h
  · next c cs hs =>
    rw [hs]
    simp only [Bool.and_eq_true, decide_eq_true_eq, List.all_eq_true] at h
    obtain ⟨⟨⟨⟨hc, hl⟩, -⟩, hmid⟩, hlast⟩ := h
    have hne : cs ≠ [] := by
      rintro rfl
      simp at hl
    rw [List.getLast?_eq_some_getLast hne, Option.any_some] at hlast
    intro d hd
    rcases List.mem_cons.mp hd with rfl | hd
    · simp [isSlugChar, isLowerAlnum, hc]
    · rw [← List.dropLast_append_getLast hne] at hd
      rcases List.mem_append.mp hd with hd | hd
      · exact hmid d hd
      · rw [List.mem_singleton.mp hd]
        simp [isSlugChar, hlast]

theorem isSlugChar_of_isHexDigit {c : Char} (h : isHexDigit c = true) : isSlugChar c = true := by
  simp only [isHexDigit, isSlugChar, isLowerAlnum, isLowerAlpha, Bool.or_eq_true,
    Bool.and_eq_true, decide_eq_true_eq] at *
  rcases h with h | ⟨h1, h2⟩
  · exact .inl (.inr h)
  · exact .inl (.inl ⟨h1, Char.le_trans h2 (by decide)⟩)

theorem nsCwdRe_chars {s : String} (h : nsCwdRe s = true) : ∀ c ∈ s.toList, isSlugChar c = true := by
  unfold nsCwdRe at h
  split at h
  · next cs hs =>
    simp only [Bool.and_eq_true, List.all_eq_true] at h
    intro d hd
    rw [hs] at hd
    simp only [List.mem_cons] at hd
    rcases hd with rfl | rfl | rfl | rfl | hd
    · decide
    · decide
    · decide
    · decide
    · exact isSlugChar_of_isHexDigit (h.2 d hd)
  · cases h

theorem categorySlugRe_chars {s : String} (h : categorySlugRe s = true) :
    ∀ c ∈ s.toList, isSlugChar c = true := by
  unfold categorySlugRe at h
  split at h
  · cases h
  · next c cs hs =>
    simp only [Bool.and_eq_true, List.all_eq_true] at h
    intro d hd
    rw [hs] at hd
    rcases List.mem_cons.mp hd with rfl | hd
    · simp [isSlugChar, isLowerAlnum, h.1]
    · exact h.2 d hd

theorem slash_not_slug {l : List Char} (h : ∀ c ∈ l, isSlugChar c = true) : '/' ∉ l := by
  intro hm
  exact absurd (h _ hm) (by decide)

/-! ### Labels, categories, names and handles -/

/-- A slug, or the label of a working directory. -/
structure NamespaceLabel where
  asStr : String
  valid : (slugRe asStr || nsCwdRe asStr) = true
deriving DecidableEq

/-- `FromStr` of a namespace label. -/
def NamespaceLabel.fromStr (s : String) : Option NamespaceLabel :=
  if h : (slugRe s || nsCwdRe s) = true then some ⟨s, h⟩ else none

theorem NamespaceLabel.slash_notMem (l : NamespaceLabel) : '/' ∉ l.asStr.toList := by
  have h := l.valid
  simp only [Bool.or_eq_true] at h
  rcases h with h | h
  · exact slash_not_slug (slugRe_chars h)
  · exact slash_not_slug (nsCwdRe_chars h)

/-- A slug. -/
structure SecretName where
  asStr : String
  valid : slugRe asStr = true
deriving DecidableEq

/-- `FromStr` of a secret name. -/
def SecretName.fromStr (s : String) : Option SecretName :=
  if h : slugRe s = true then some ⟨s, h⟩ else none

/-- The texts of the built-in categories. -/
def builtinCategories : List String :=
  ["password", "otp", "ssh", "gpg", "token", "cert", "cloud", "database", "env", "note", "key"]

/-- A category: built in, or a custom slug that is none of the built-in texts. -/
inductive CategoryName
  | password | otpSecret | sshKey | gpgKey | token | cert | cloud | database | env | note | key
  | custom (s : String) (valid : categorySlugRe s = true) (fresh : s ∉ builtinCategories)
deriving DecidableEq

/-- `as_str` of a category. -/
def CategoryName.asStr : CategoryName → String
  | password => "password"
  | otpSecret => "otp"
  | sshKey => "ssh"
  | gpgKey => "gpg"
  | token => "token"
  | cert => "cert"
  | cloud => "cloud"
  | database => "database"
  | env => "env"
  | note => "note"
  | key => "key"
  | custom s _ _ => s

/-- The built-in category of a text. -/
def CategoryName.builtin : String → Option CategoryName
  | "password" => some password
  | "otp" => some otpSecret
  | "ssh" => some sshKey
  | "gpg" => some gpgKey
  | "token" => some token
  | "cert" => some cert
  | "cloud" => some cloud
  | "database" => some database
  | "env" => some env
  | "note" => some note
  | "key" => some key
  | _ => none

/-- `FromStr` of a category: a built-in one first, then a custom slug. -/
def CategoryName.fromStr (s : String) : Option CategoryName :=
  match CategoryName.builtin s with
  | some c => some c
  | none =>
    if hf : s ∉ builtinCategories then
      if hv : categorySlugRe s = true then some (.custom s hv hf) else none
    else none

theorem CategoryName.builtin_eq_none {s : String} (h : s ∉ builtinCategories) :
    CategoryName.builtin s = none := by
  unfold CategoryName.builtin
  split
  all_goals first | rfl | exact absurd (by decide) h

theorem CategoryName.fromStr_asStr (c : CategoryName) : CategoryName.fromStr c.asStr = some c := by
  cases c with
  | custom s hv hf =>
    show CategoryName.fromStr s = some (.custom s hv hf)
    unfold CategoryName.fromStr
    rw [CategoryName.builtin_eq_none hf]
    simp only [dif_pos hf, dif_pos hv]
  | _ => rfl

theorem CategoryName.asStr_injective : Function.Injective CategoryName.asStr := by
  intro a b h
  have := CategoryName.fromStr_asStr a
  rw [h, CategoryName.fromStr_asStr] at this
  exact (Option.some.inj this).symm

theorem CategoryName.slash_notMem (c : CategoryName) : '/' ∉ c.asStr.toList := by
  cases c with
  | custom s hv _ => exact slash_not_slug (categorySlugRe_chars hv)
  | _ => decide

/-- The text before the first slash and the text after it. -/
def cutAtSlash (cs : List Char) : Option (List Char × List Char) :=
  match cs.span (· ≠ '/') with
  | (_, []) => none
  | (before, _ :: after) => some (before, after)

/-- A handle `vault://<ns>/<cat>/<name>`. -/
structure Handle where
  nspace : NamespaceLabel
  category : CategoryName
  secretName : SecretName
deriving DecidableEq

/-- The labels and the name that the samples use. -/
def sampleLabel : NamespaceLabel := ⟨"prod", by decide⟩

/-- The label `dev`. -/
def sampleDev : NamespaceLabel := ⟨"dev", by decide⟩

/-- The name `postgres`. -/
def sampleSecretName : SecretName := ⟨"postgres", by decide⟩

/-- `Display` of a handle: `vault://namespace/category/name`. -/
def Handle.display (h : Handle) : String :=
  "vault://" ++ h.nspace.asStr ++ "/" ++ h.category.asStr ++ "/" ++ h.secretName.asStr

/-- `Handle::from_str`: `vault://`, then three parts between slashes, none of them empty. -/
def Handle.fromStr (s : String) : Option Handle := do
  let path ← ("vault://".toList).isPrefixOf? s.toList
  let (label, rest) ← cutAtSlash path
  let (category, name) ← cutAtSlash rest
  if label = [] ∨ category = [] ∨ name = [] then none else
  return ⟨← NamespaceLabel.fromStr (String.ofList label), ← CategoryName.fromStr (String.ofList category),
    ← SecretName.fromStr (String.ofList name)⟩

theorem Handle.display_toList (h : Handle) :
    h.display.toList = "vault://".toList ++ (h.nspace.asStr.toList ++ '/' ::
      (h.category.asStr.toList ++ '/' :: h.secretName.asStr.toList)) := by
  simp [Handle.display, String.toList_append]

theorem cutAtSlash_eq_some {cs before after : List Char} :
    cutAtSlash cs = some (before, after) ↔ cs = before ++ '/' :: after ∧ '/' ∉ before := by
  unfold cutAtSlash
  cases hspan : cs.span (· ≠ '/') with
  | mk front back =>
    cases back with
    | nil =>
      refine iff_of_false (by simp) fun hcs => ?_
      rw [span_separator.mpr ⟨rfl, hcs⟩] at hspan
      cases hspan
    | cons c rest =>
      obtain ⟨-, rfl, hfront⟩ := span_separator.mp hspan
      simp only [Option.some.injEq, Prod.mk.injEq]
      constructor
      · rintro ⟨rfl, rfl⟩
        exact ⟨rfl, hfront⟩
      · rintro ⟨hcs, hbefore⟩
        exact cut_at_separator hfront hbefore hcs

theorem cutAtSlash_append {before after : List Char} (h : '/' ∉ before) :
    cutAtSlash (before ++ '/' :: after) = some (before, after) :=
  cutAtSlash_eq_some.mpr ⟨rfl, h⟩

/-- **The text of a handle is read back to it.** -/
theorem Handle.fromStr_display (h : Handle) : Handle.fromStr h.display = some h := by
  have hlabel : NamespaceLabel.fromStr (String.ofList h.nspace.asStr.toList) = some h.nspace := by
    rw [String.ofList_toList]
    exact dif_pos h.nspace.valid
  have hcat : CategoryName.fromStr (String.ofList h.category.asStr.toList) = some h.category := by
    rw [String.ofList_toList]
    exact CategoryName.fromStr_asStr h.category
  have hname : SecretName.fromStr (String.ofList h.secretName.asStr.toList) = some h.secretName := by
    rw [String.ofList_toList]
    exact dif_pos h.secretName.valid
  have hparts : ¬(h.nspace.asStr.toList = [] ∨ h.category.asStr.toList = [] ∨
      h.secretName.asStr.toList = []) := by
    rintro (hn | hc | hs)
    · rw [hn] at hlabel
      cases hlabel
    · rw [hc] at hcat
      cases hcat
    · rw [hs] at hname
      cases hname
  have hpath : ("vault://".toList).isPrefixOf? h.display.toList = some (h.nspace.asStr.toList ++ '/' ::
      (h.category.asStr.toList ++ '/' :: h.secretName.asStr.toList)) := by
    rw [List.isPrefixOf?_eq_some_iff_append_eq, Handle.display_toList]
  unfold Handle.fromStr
  simp only [hpath, cutAtSlash_append h.nspace.slash_notMem,
    cutAtSlash_append h.category.slash_notMem, Option.bind_eq_bind, Option.bind_some, if_neg hparts,
    hlabel, hcat, hname]
  rfl

/-- **The text of a handle determines it.** -/
theorem Handle.display_injective : Function.Injective Handle.display := by
  intro a b h
  have hl := congrArg String.toList h
  rw [Handle.display_toList, Handle.display_toList] at hl
  have h1 := List.append_cancel_left hl
  obtain ⟨hns, h2⟩ := cut_at_separator a.nspace.slash_notMem b.nspace.slash_notMem h1
  obtain ⟨hcat, hname⟩ := cut_at_separator a.category.slash_notMem b.category.slash_notMem h2
  obtain ⟨⟨na, _⟩, ca, ⟨sa, _⟩⟩ := a
  obtain ⟨⟨nb, _⟩, cb, ⟨sb, _⟩⟩ := b
  obtain rfl := String.toList_inj.mp hns
  obtain rfl := CategoryName.asStr_injective (String.toList_inj.mp hcat)
  obtain rfl := String.toList_inj.mp hname
  rfl

end MerkleVault.Types
