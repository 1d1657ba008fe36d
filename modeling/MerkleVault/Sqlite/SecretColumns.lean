import MerkleVault.Secrets.Serialized
import Mathlib

/-!
# The Columns of a Secret

What `put_secret` binds for a secret and its versions, and what `list_secrets` makes of rows: every
column is parsed, and because two fields of the aggregate are private it is put together as a JSON
value, which is deserialized.

* `rowToSecret_dated`: whatever the columns hold, the times of a secret that is read are in years of four
  digits, for no other time comes back from that value;
* `listSecrets_columns`: the secrets that were put are read, their times cut to microseconds.
-/

namespace MerkleVault.Sqlite.SecretColumns

open MerkleVault.Types MerkleVault.External MerkleVault.Lib.Serde MerkleVault.Secrets.Serialized
open MerkleVault.Sqlite.AuditRows

/-- `serde_json::to_vec` and `serde_json::from_slice`, by the values that texts stand for. -/
structure JsonText where
  toVec : Value → List UInt8
  fromSlice : List UInt8 → Except String Value

/-- The text of the value is read as the value. -/
def JsonText.ReadsBack (J : JsonText) (v : Value) : Prop := J.fromSlice (J.toVec v) = .ok v

/-- `AdapterError`, of the mappers of secrets. -/
inductive MapperError
  | parse (detail : String)
  | json

/-- The columns of `secrets` that are selected; a JSON column by the bytes of its text. -/
structure StoredSecret where
  id : List UInt8
  namespaceId : List UInt8
  handle : String
  category : String
  sensitivity : String
  publicMetadataJson : List UInt8
  tagsJson : List UInt8
  currentVersionId : List UInt8
  createdAt : String

/-- The columns of `secret_versions`. -/
structure StoredVersion where
  id : List UInt8
  secretId : List UInt8
  versionNo : ℤ
  ciphertext : List UInt8
  nonce : List UInt8
  aeadTag : List UInt8
  associatedData : List UInt8
  dekVersion : ℤ
  createdAt : String
  deprecatedAt : Option String

/-! ### Reading -/

/-- `u32::try_from(n).unwrap_or(0)`. -/
def u32OrZero (n : ℤ) : UInt32 := if 0 ≤ n ∧ n < 2 ^ 32 then UInt32.ofNat n.toNat else 0

/-- `.map_err(|e| AdapterError::Parse(e.to_string()))`. -/
def parsed {α : Type} : Except ParseError α → Except MapperError α
  | .ok a => .ok a
  | .error e => .error (.parse e.display)

/-- `CategoryName::from_str`. -/
def parseCategory (s : String) : Except MapperError CategoryName :=
  match CategoryName.fromStr s with
  | some category => .ok category
  | none => .error (.parse ("invalid category name: " ++ s))

/-- A blob of exactly `n` bytes. -/
def exactly (n : ℕ) (column : String) (bytes : List UInt8) : Except MapperError (Vector UInt8 n) :=
  if h : bytes.length = n then .ok ⟨bytes.toArray, by simp [h]⟩
  else .error (.parse (column ++ " must be exactly " ++ toString n ++ " bytes"))

section

variable (K : Crates) (R : Readers) (J : JsonText)

/-- `blob_to_secret_id` and its siblings: what `blob_to_uuid` gives is printed and read once more. -/
def blobToId (bytes : List UInt8) : Except MapperError UuidV7 :=
  match blobToUuid K R bytes with
  | .error e => .error (.parse e.parse)
  | .ok u => match readUuidV7 R (K.hyphenated u) with
    | some id => .ok id
    | none => .error (.parse "UuidV7 always parses as an identifier")

/-- `serde_json::from_str` of a column. -/
def fromColumn {α : Type} (c : Codec α) (text : List UInt8) : Except MapperError α :=
  match J.fromSlice text with
  | .error _ => .error .json
  | .ok v => match c.de v with
    | some a => .ok a
    | none => .error .json

/-- `row_to_secret_version`. -/
def rowToSecretVersion (row : StoredVersion) : Except MapperError SecretVersion := do
  let id ← blobToId K R row.id
  let secretId ← blobToId K R row.secretId
  let nonce ← exactly 24 "nonce" row.nonce
  let aeadTag ← exactly 16 "aead_tag" row.aeadTag
  let createdAt ← parsed (parseTimestamp R row.createdAt)
  let deprecatedAt ← row.deprecatedAt.mapM fun text => parsed (parseTimestamp R text)
  let dekVersion := u32OrZero row.dekVersion
  return ⟨id, secretId, u32OrZero row.versionNo,
    ⟨row.ciphertext, nonce, aeadTag, row.associatedData, dekVersion⟩, dekVersion, createdAt, deprecatedAt⟩

/-- `row_to_secret`. -/
def rowToSecret (row : StoredSecret) (versions : List SecretVersion) : Except MapperError Secret := do
  let id ← blobToId K R row.id
  let namespaceId ← blobToId K R row.namespaceId
  let handle ← parsed (parseHandle row.handle)
  let category ← parseCategory row.category
  let sensitivity ← parsed (parseSensitivity row.sensitivity)
  let publicMetadata ← fromColumn J (publicMetadata K R) row.publicMetadataJson
  let tags ← fromColumn J (list tag) row.tagsJson
  let currentVersionId ← blobToId K R row.currentVersionId
  let createdAt ← parsed (parseTimestamp R row.createdAt)
  -- the private fields are set by way of a JSON value
  match (secret K R).through ⟨id, namespaceId, handle, category, sensitivity, tags, publicMetadata,
    createdAt, versions, currentVersionId⟩ with
  | some secret => return secret
  | none => throw .json

/-- `load_versions_for_secret`. -/
def loadVersions (versions : List StoredVersion) (secretId : List UInt8) :
    Except MapperError (List SecretVersion) :=
  ((versions.filter fun v => v.secretId = secretId).mergeSort
    fun a b => decide (a.versionNo ≤ b.versionNo)).mapM
    (rowToSecretVersion K R)

/-- `list_secrets` without filters, over the rows of its statement. -/
def listSecrets (versions : List StoredVersion) (rows : List StoredSecret) :
    Except MapperError (List Secret) :=
  rows.mapM fun row => do rowToSecret K R J row (← loadVersions K R versions row.id)

/-! ### Writing -/

/-- The columns that `upsert_secret_row` binds and a mapper reads. -/
def secretColumns (s : Secret) : StoredSecret where
  id := s.id.inner.toList
  namespaceId := s.namespaceId.inner.toList
  handle := s.handle.display
  category := s.category.asStr
  sensitivity := s.sensitivity.display
  publicMetadataJson := J.toVec ((publicMetadata K R).ser s.publicMetadata)
  tagsJson := J.toVec ((list tag).ser s.tags)
  currentVersionId := s.currentVersionId.inner.toList
  createdAt := K.toRfc3339 s.createdAt

/-- The columns that `upsert_version_with_parent` binds: the version is put under its parent. -/
def versionColumns (parentId : UuidV7) (v : SecretVersion) : StoredVersion where
  id := v.id.inner.toList
  secretId := parentId.inner.toList
  versionNo := v.versionNo.toNat
  ciphertext := v.blob.ciphertext
  nonce := v.blob.nonce.toList
  aeadTag := v.blob.aeadTag.toList
  associatedData := v.blob.associatedData
  dekVersion := v.dekVersion.toNat
  createdAt := K.toRfc3339 v.createdAt
  deprecatedAt := v.deprecatedAt.map K.toRfc3339

end

/-! ### Whatever the columns hold -/

theorem bind_ok {α β ε : Type} {x : Except ε α} {f : α → Except ε β} {b : β} (h : x >>= f = .ok b) :
    ∃ a, x = .ok a ∧ f a = .ok b := by
  cases x with
  | error e => cases h
  | ok a => exact ⟨a, rfl, h⟩

theorem mapM_all {α β ε : Type} {f : α → Except ε β} {P : β → Prop} (hf : ∀ a b, f a = .ok b → P b) :
    ∀ {l : List α} {bs : List β}, l.mapM f = .ok bs → ∀ b ∈ bs, P b
  | [], bs, h => by
    obtain rfl : [] = bs := Except.ok.inj h
    exact fun _ hb => absurd hb List.not_mem_nil
  | a :: l, bs, h => by
    rw [List.mapM_cons] at h
    obtain ⟨b, hb, h⟩ := bind_ok h
    obtain ⟨bs', hbs, h⟩ := bind_ok h
    obtain rfl : b :: bs' = bs := Except.ok.inj h
    exact List.forall_mem_cons.mpr ⟨hf a b hb, mapM_all hf hbs⟩

theorem SecretVersion.Dated.cut {v : SecretVersion} (h : v.Dated) : v.cut.Dated := by
  refine ⟨h.createdAt, fun t ht => ?_⟩
  obtain ⟨u, hu, rfl⟩ := Option.map_eq_some_iff.mp ht
  exact h.deprecatedAt u hu

theorem Secret.Dated.cut {s : Secret} (h : s.Dated) : s.cut.Dated := by
  refine ⟨fun t ht => ?_, h.createdAt, fun v hv => ?_⟩
  · obtain ⟨u, hu, rfl⟩ := Option.map_eq_some_iff.mp ht
    exact h.publicMetadata u hu
  · obtain ⟨w, hw, rfl⟩ := List.mem_map.mp hv
    exact SecretVersion.Dated.cut (h.versions w hw)

section

variable {K : Crates} {R : Readers} {J : JsonText}

/-- **The times of a secret that is read** are in years of four digits. -/
theorem rowToSecret_dated (hR : R.Lawful K) (hyears : RefusesOtherYears K R) {row : StoredSecret}
    {versions : List SecretVersion} {s : Secret}
    (h : rowToSecret K R J row versions = .ok s) : s.Dated := by
  unfold rowToSecret at h
  obtain ⟨id, -, h⟩ := bind_ok h
  obtain ⟨namespaceId, -, h⟩ := bind_ok h
  obtain ⟨handle, -, h⟩ := bind_ok h
  obtain ⟨category, -, h⟩ := bind_ok h
  obtain ⟨sensitivity, -, h⟩ := bind_ok h
  obtain ⟨publicMetadata, -, h⟩ := bind_ok h
  obtain ⟨tags, -, h⟩ := bind_ok h
  obtain ⟨currentVersionId, -, h⟩ := bind_ok h
  obtain ⟨createdAt, -, h⟩ := bind_ok h
  have hcuts := secret_cuts hR hyears
  split at h
  · next secret hthrough =>
    obtain rfl : secret = s := Except.ok.inj h
    by_cases hdated : Secret.Dated ⟨id, namespaceId, handle, category, sensitivity, tags, publicMetadata,
      createdAt, versions, currentVersionId⟩
    · rw [hcuts.inside _ hdated] at hthrough
      exact Option.some.inj hthrough ▸ Secret.Dated.cut hdated
    · rw [hcuts.outside _ hdated] at hthrough
      cases hthrough
  · cases h

/-- **What is listed is dated**, whatever the tables hold. -/
theorem listSecrets_dated (hR : R.Lawful K) (hyears : RefusesOtherYears K R)
    {versions : List StoredVersion}
    {rows : List StoredSecret} {secrets : List Secret}
    (h : listSecrets K R J versions rows = .ok secrets) : ∀ s ∈ secrets, s.Dated :=
  mapM_all (fun _ _ hrow => by
    obtain ⟨loaded, -, hread⟩ := bind_ok hrow
    exact rowToSecret_dated hR hyears hread) h

/-! ### What was put -/

/-- The version as it comes back under its parent. -/
def storedVersion (parentId : UuidV7) (v : SecretVersion) : SecretVersion :=
  { v.cut with secretId := parentId, blob := { v.blob with dekVersion := v.dekVersion } }

/-- The secret as it comes back. -/
def storedSecret (s : Secret) : Secret := { s.cut with versions := s.versions.map (storedVersion s.id) }

theorem u32OrZero_toNat (n : UInt32) : u32OrZero n.toNat = n := by
  have hlt := n.toNat_lt
  rw [u32OrZero, if_pos (by omega), Int.toNat_natCast, UInt32.ofNat_toNat]

theorem exactly_toList {n : ℕ} (column : String) (v : Vector UInt8 n) :
    exactly n column v.toList = .ok v := by
  rw [exactly, dif_pos (by simp)]
  exact congrArg Except.ok (Vector.toList_inj.mp rfl)

theorem cut_cut (o : Option Rfc3339Timestamp) :
    (o.map (·.atMicros)).map (·.atMicros) = o.map (·.atMicros) := by
  rw [Option.map_map]
  exact Option.map_congr fun t _ => t.atMicros_atMicros

theorem cut_storedVersion (parentId : UuidV7) (v : SecretVersion) :
    (storedVersion parentId v).cut = storedVersion parentId v := by
  unfold storedVersion SecretVersion.cut
  simp only [Rfc3339Timestamp.atMicros_atMicros, cut_cut]

theorem cut_storedSecret (s : Secret) : (storedSecret s).cut = storedSecret s := by
  have hversions : (s.versions.map (storedVersion s.id)).map SecretVersion.cut =
      s.versions.map (storedVersion s.id) := by
    rw [List.map_map]
    exact List.map_congr_left fun v _ => cut_storedVersion s.id v
  unfold storedSecret Secret.cut PublicMetadata.cut
  simp only [Rfc3339Timestamp.atMicros_atMicros, cut_cut, hversions]

section Written

variable (hR : R.Lawful K)

include hR in
theorem blobToId_toList (u : UuidV7) : blobToId K R u.inner.toList = .ok u := by
  rw [blobToId, blobToUuid_toList hR u.version]
  simp only [readUuidV7, hR.parseUuid_hyphenated, Option.bind_some, dif_pos u.version]

include hR in
theorem parsed_toRfc3339 {t : Rfc3339Timestamp} (ht : FourDigitYear t) :
    parsed (parseTimestamp R (K.toRfc3339 t)) = .ok t.atMicros := by
  rw [parseTimestamp_toRfc3339 hR ht]
  rfl

theorem fromColumn_ser {α : Type} {c : Codec α} {a b : α} (hJ : J.ReadsBack (c.ser a))
    (hc : c.through a = some b) : fromColumn J c (J.toVec (c.ser a)) = .ok b := by
  unfold JsonText.ReadsBack at hJ
  unfold Codec.through at hc
  simp only [fromColumn, hJ, hc]

include hR in
/-- **A version is read** from the columns that were bound for it. -/
theorem rowToSecretVersion_columns (parentId : UuidV7) {v : SecretVersion} (hv : v.Dated) :
    rowToSecretVersion K R (versionColumns K parentId v) = .ok (storedVersion parentId v) := by
  have hdeprecated : ((v.deprecatedAt.map K.toRfc3339).mapM fun text =>
      parsed (parseTimestamp R text)) = .ok (v.deprecatedAt.map (·.atMicros)) := by
    cases h : v.deprecatedAt with
    | none => rfl
    | some t =>
      have ht := parsed_toRfc3339 hR (hv.deprecatedAt t h)
      simp only [Option.map_some, Option.mapM_some, ht]
      rfl
  unfold rowToSecretVersion versionColumns
  simp only [blobToId_toList hR, exactly_toList, parsed_toRfc3339 hR hv.createdAt, hdeprecated,
    u32OrZero_toNat]
  rfl

/-- The JSON columns of the secret are read back. -/
structure ReadsColumns (K : Crates) (R : Readers) (J : JsonText) (s : Secret) : Prop where
  publicMetadata : J.ReadsBack ((publicMetadata K R).ser s.publicMetadata)
  tags : J.ReadsBack ((list tag).ser s.tags)

/-- **A secret is read** from the columns that were bound for it. -/
theorem rowToSecret_columns (hR : R.Lawful K) (hyears : RefusesOtherYears K R) {s : Secret} (hs : s.Dated)
    (hJ : ReadsColumns K R J s) : rowToSecret K R J (secretColumns K R J s)
      (s.versions.map (storedVersion s.id)) = .ok (storedSecret s) := by
  have hmetadata := fromColumn_ser hJ.publicMetadata
    ((publicMetadata_cuts hR hyears).inside s.publicMetadata hs.publicMetadata)
  have htags := fromColumn_ser hJ.tags (lossless_tag.list s.tags)
  have hcategory : parseCategory s.category.asStr = .ok s.category := by
    simp only [parseCategory, CategoryName.fromStr_asStr]
  have hread : Secret.Dated (storedSecret s) := by
    have hcut := Secret.Dated.cut hs
    refine ⟨hcut.publicMetadata, hcut.createdAt, fun v hv => ?_⟩
    obtain ⟨w, hw, rfl⟩ := List.mem_map.mp hv
    have hw' := SecretVersion.Dated.cut (hs.versions w hw)
    exact ⟨hw'.createdAt, hw'.deprecatedAt⟩
  have hthrough := (secret_cuts hR hyears).inside _ hread
  rw [cut_storedSecret] at hthrough
  unfold rowToSecret secretColumns
  simp only [blobToId_toList hR, parseHandle_display, hcategory, parseSensitivity_display, hmetadata,
    htags, parsed_toRfc3339 hR hs.createdAt]
  change (match (secret K R).through (storedSecret s) with
    | some secret => Except.ok secret
    | none => Except.error MapperError.json) = _
  rw [hthrough]

include hR in
theorem loadVersions_columns {versions : List StoredVersion} {s : Secret} (hs : s.Dated)
    (hheld : (versions.filter fun v => v.secretId = s.id.inner.toList) =
      s.versions.map (versionColumns K s.id))
    (hsorted : s.versions.Pairwise fun a b => a.versionNo ≤ b.versionNo) :
    loadVersions K R versions s.id.inner.toList = .ok (s.versions.map (storedVersion s.id)) := by
  have horder : (s.versions.map (versionColumns K s.id)).Pairwise fun a b =>
      decide (a.versionNo ≤ b.versionNo) = true := by
    refine List.pairwise_map.mpr (hsorted.imp fun h => decide_eq_true ?_)
    exact Int.ofNat_le.mpr (UInt32.le_iff_toNat_le.mp h)
  unfold loadVersions
  rw [hheld, List.mergeSort_of_pairwise horder, List.mapM_map]
  exact mapM_ok fun v hv => rowToSecretVersion_columns hR s.id (hs.versions v hv)

/-- **The secrets that were put are listed.** -/
theorem listSecrets_columns (hR : R.Lawful K) (hyears : RefusesOtherYears K R)
    {versions : List StoredVersion} {secrets : List Secret} (hdated : ∀ s ∈ secrets, s.Dated)
    (hJ : ∀ s ∈ secrets, ReadsColumns K R J s)
    (hheld : ∀ s ∈ secrets, (versions.filter fun v => v.secretId = s.id.inner.toList) =
      s.versions.map (versionColumns K s.id))
    (hsorted : ∀ s ∈ secrets, s.versions.Pairwise fun a b => a.versionNo ≤ b.versionNo) :
    listSecrets K R J versions (secrets.map (secretColumns K R J)) =
      .ok (secrets.map storedSecret) := by
  unfold listSecrets
  rw [List.mapM_map]
  refine mapM_ok fun s hs => ?_
  have hload := loadVersions_columns hR (hdated s hs) (hheld s hs) (hsorted s hs)
  change loadVersions K R versions s.id.inner.toList >>= _ = _
  rw [hload]
  exact rowToSecret_columns hR hyears (hdated s hs) (hJ s hs)

end Written

end

end MerkleVault.Sqlite.SecretColumns
