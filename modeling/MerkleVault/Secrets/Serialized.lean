import MerkleVault.Lib.Serde
import MerkleVault.Secrets.Aggregate
import MerkleVault.Sqlite.AuditRows
import Mathlib

/-!
# The Secret Aggregate as It Is Serialized

The aggregate with every field, and the serializers that are derived for it.  Identifiers, timestamps,
handles, categories and tag values are written as texts and parsed; everything else is a record.

* `secret_cuts`: what comes back of a secret is the secret with its times cut to microseconds, and
  nothing comes back when one of its times is in no year of four digits;
* `Secret.aggregate`: the part that the commands work on.
-/

namespace MerkleVault.Secrets.Serialized

open MerkleVault.Types MerkleVault.External MerkleVault.Lib.Serde MerkleVault.Sqlite.AuditRows
open MerkleVault.Secrets.Aggregate (TagKey SecretVersionId)

/-! ### The aggregate -/

/-- An identifier: `SecretId`, `NamespaceId` and `SecretVersionId` wrap one. -/
structure UuidV7 where
  inner : Uuid
  version : versionNum inner = 7
deriving DecidableEq

/-- `TagValue`: a slug. -/
structure TagValue where
  asStr : String
  valid : tagValueRe asStr = true
deriving DecidableEq

/-- A key with its value. -/
structure Tag where
  key : TagKey
  value : TagValue
deriving DecidableEq

/-- `PublicMetadata`. -/
structure PublicMetadata where
  description : Option String
  expose : Bool
  ftsKeywords : Option (List String)
  expiresAt : Option Rfc3339Timestamp
  prefix_ : Option String
  last4 : Option String
  fingerprint : Option String
deriving DecidableEq

/-- The encrypted value of a version. -/
structure PrivateBlob where
  ciphertext : List UInt8
  nonce : Vector UInt8 24
  aeadTag : Vector UInt8 16
  associatedData : List UInt8
  dekVersion : UInt32
deriving DecidableEq

/-- `SecretVersion`. -/
structure SecretVersion where
  id : UuidV7
  secretId : UuidV7
  versionNo : UInt32
  blob : PrivateBlob
  dekVersion : UInt32
  createdAt : Rfc3339Timestamp
  deprecatedAt : Option Rfc3339Timestamp
deriving DecidableEq

/-- The aggregate with all its fields, as it is serialized. -/
structure Secret where
  id : UuidV7
  namespaceId : UuidV7
  handle : Handle
  category : CategoryName
  sensitivity : Sensitivity
  tags : List Tag
  publicMetadata : PublicMetadata
  createdAt : Rfc3339Timestamp
  versions : List SecretVersion
  currentVersionId : UuidV7
deriving DecidableEq

/-! ### Its times -/

/-- The metadata with its times cut to microseconds. -/
def PublicMetadata.cut (m : PublicMetadata) : PublicMetadata :=
  { m with expiresAt := m.expiresAt.map (·.atMicros) }

/-- The version with its times cut to microseconds. -/
def SecretVersion.cut (v : SecretVersion) : SecretVersion :=
  { v with createdAt := v.createdAt.atMicros, deprecatedAt := v.deprecatedAt.map (·.atMicros) }

/-- The secret with its times cut to microseconds. -/
def Secret.cut (s : Secret) : Secret :=
  { s with
    publicMetadata := s.publicMetadata.cut
    createdAt := s.createdAt.atMicros
    versions := s.versions.map SecretVersion.cut }

/-- The times are in years of four digits. -/
def PublicMetadata.Dated (m : PublicMetadata) : Prop := ∀ t ∈ m.expiresAt, FourDigitYear t

/-- The times have years of four digits. -/
structure SecretVersion.Dated (v : SecretVersion) : Prop where
  createdAt : FourDigitYear v.createdAt
  deprecatedAt : ∀ t ∈ v.deprecatedAt, FourDigitYear t

/-- The times of the secret and of all its versions have years of four digits. -/
structure Secret.Dated (s : Secret) : Prop where
  publicMetadata : s.publicMetadata.Dated
  createdAt : FourDigitYear s.createdAt
  versions : ∀ v ∈ s.versions, v.Dated

/-! ### Serializers -/

section

variable (K : Crates) (R : Readers)

/-- The text of a UUID of version 7. -/
def readUuidV7 (s : String) : Option UuidV7 :=
  (R.parseUuid s).bind fun u => if h : versionNum u = 7 then some ⟨u, h⟩ else none

/-- The text of a tag value. -/
def readTagValue (s : String) : Option TagValue :=
  if h : tagValueRe s = true then some ⟨s, h⟩ else none

/-- The variant name of a tag key. -/
def tagKeyName : TagKey → String
  | .env => "env"
  | .project => "project"
  | .role => "role"
  | .provider => "provider"
  | .team => "team"

/-- An id, as its hyphenated text. -/
def uuidV7 : Codec UuidV7 := viaText (fun u => K.hyphenated u.inner) (readUuidV7 R)

/-- A time, as its RFC 3339 text. -/
def timestamp : Codec Rfc3339Timestamp := viaText K.toRfc3339 R.parseRfc3339

/-- A handle, as its URI. -/
def handle : Codec Handle := viaText Handle.display Handle.fromStr

/-- A category, as its text. -/
def categoryName : Codec CategoryName := viaText CategoryName.asStr CategoryName.fromStr

/-- A sensitivity, as the name of its variant. -/
def sensitivity : Codec Sensitivity := unitVariant Sensitivity.display Sensitivity.fromStr

/-- A tag key, as the name of its variant. -/
def tagKey : Codec TagKey := unitVariant tagKeyName TagKey.fromStr

/-- A tag value, as its text. -/
def tagValue : Codec TagValue := viaText TagValue.asStr readTagValue

/-- Unknown members are refused. -/
def tag : Codec Tag :=
  record ["key", "value"] true (fun t => [tagKey.ser t.key, tagValue.ser t.value]) fun
    | [key, value] => do return ⟨← required tagKey key, ← required tagValue value⟩
    | _ => none

/-- `PublicMetadata`, all of whose fields are written. -/
def publicMetadata : Codec PublicMetadata :=
  record ["description", "expose", "fts_keywords", "expires_at", "prefix", "last4", "fingerprint"] false
    (fun m => [(optional text).ser m.description, boolean.ser m.expose,
      (optional (list text)).ser m.ftsKeywords, (optional (timestamp K R)).ser m.expiresAt,
      (optional text).ser m.prefix_, (optional text).ser m.last4, (optional text).ser m.fingerprint]) fun
    | [description, expose, ftsKeywords, expiresAt, prefix_, last4, fingerprint] => do
      return ⟨← defaulted text description, ← required boolean expose,
        ← defaulted (list text) ftsKeywords, ← defaulted (timestamp K R) expiresAt,
        ← defaulted text prefix_, ← defaulted text last4, ← defaulted text fingerprint⟩
    | _ => none

/-- `PrivateBlob`, with its bytes as arrays of numbers. -/
def privateBlob : Codec PrivateBlob :=
  record ["ciphertext", "nonce", "aead_tag", "associated_data", "dek_version"] false
    (fun b => [(list byte).ser b.ciphertext, (array byte 24).ser b.nonce, (array byte 16).ser b.aeadTag,
      (list byte).ser b.associatedData, uint32.ser b.dekVersion]) fun
    | [ciphertext, nonce, aeadTag, associatedData, dekVersion] => do
      return ⟨← required (list byte) ciphertext, ← required (array byte 24) nonce,
        ← required (array byte 16) aeadTag, ← required (list byte) associatedData,
        ← required uint32 dekVersion⟩
    | _ => none

/-- `SecretVersion`, with the fields of its blob inside. -/
def secretVersion : Codec SecretVersion :=
  record ["id", "secret_id", "version_no", "blob", "dek_version", "created_at", "deprecated_at"] false
    (fun v => [(uuidV7 K R).ser v.id, (uuidV7 K R).ser v.secretId, uint32.ser v.versionNo,
      privateBlob.ser v.blob, uint32.ser v.dekVersion, (timestamp K R).ser v.createdAt,
      (optional (timestamp K R)).ser v.deprecatedAt]) fun
    | [id, secretId, versionNo, blob, dekVersion, createdAt, deprecatedAt] => do
      return ⟨← required (uuidV7 K R) id, ← required (uuidV7 K R) secretId,
        ← required uint32 versionNo, ← required privateBlob blob, ← required uint32 dekVersion,
        ← required (timestamp K R) createdAt, ← defaulted (timestamp K R) deprecatedAt⟩
    | _ => none

/-- `Secret`, with its versions. -/
def secret : Codec Secret :=
  record ["id", "namespace_id", "handle", "category", "sensitivity", "tags", "public_metadata",
      "created_at", "versions", "current_version_id"] false
    (fun s => [(uuidV7 K R).ser s.id, (uuidV7 K R).ser s.namespaceId, handle.ser s.handle,
      categoryName.ser s.category, sensitivity.ser s.sensitivity, (list tag).ser s.tags,
      (publicMetadata K R).ser s.publicMetadata, (timestamp K R).ser s.createdAt,
      (list (secretVersion K R)).ser s.versions, (uuidV7 K R).ser s.currentVersionId]) fun
    | [id, namespaceId, handle_, category, sensitivity_, tags, publicMetadata_, createdAt, versions,
        currentVersionId] => do
      return ⟨← required (uuidV7 K R) id, ← required (uuidV7 K R) namespaceId,
        ← required handle handle_, ← required categoryName category,
        ← required sensitivity sensitivity_, ← required (list tag) tags,
        ← required (publicMetadata K R) publicMetadata_, ← required (timestamp K R) createdAt,
        ← required (list (secretVersion K R)) versions, ← required (uuidV7 K R) currentVersionId⟩
    | _ => none

end

/-! ### What comes back -/

/-- The years that RFC 3339 cannot write are printed with a sign, and refused when they are read. -/
def RefusesOtherYears (K : Crates) (R : Readers) : Prop :=
  ∀ t, ¬FourDigitYear t → R.parseRfc3339 (K.toRfc3339 t) = none

theorem lossless_handle : Lossless handle := lossless_viaText Handle.fromStr_display

theorem lossless_categoryName : Lossless categoryName := lossless_viaText CategoryName.fromStr_asStr

theorem lossless_sensitivity : Lossless sensitivity := lossless_unitVariant Sensitivity.fromStr_display

theorem lossless_tagKey : Lossless tagKey := lossless_unitVariant fun k => by cases k <;> rfl

theorem lossless_tagValue : Lossless tagValue := lossless_viaText fun v => dif_pos v.valid

theorem lossless_tag : Lossless tag := by
  intro t
  rw [tag, record_through (by decide) rfl]
  simp only [List.map_cons, List.map_nil, required_ser, lossless_tagKey t.key, lossless_tagValue t.value]
  rfl

theorem lossless_privateBlob : Lossless privateBlob := by
  intro b
  rw [privateBlob, record_through (by decide) rfl]
  simp only [List.map_cons, List.map_nil, required_ser, lossless_byte.list b.ciphertext,
    lossless_byte.array 24 b.nonce, lossless_byte.array 16 b.aeadTag,
    lossless_byte.list b.associatedData, lossless_uint32 b.dekVersion]
  rfl

theorem neverNull_text : NeverNull text := fun _ h => by cases h

theorem neverNull_list {α : Type} (c : Codec α) : NeverNull (list c) := fun _ h => by cases h

section Laws

variable {K : Crates} {R : Readers} (hR : R.Lawful K) (hyears : RefusesOtherYears K R)

include hR in
theorem lossless_uuidV7 : Lossless (uuidV7 K R) := by
  refine lossless_viaText fun u => ?_
  unfold readUuidV7
  rw [hR.parseUuid_hyphenated, Option.bind_some, dif_pos u.version]

theorem neverNull_timestamp : NeverNull (timestamp K R) := fun _ h => by cases h

include hR hyears

theorem timestamp_cuts : Cuts (timestamp K R) FourDigitYear (·.atMicros) :=
  ⟨hR.parseRfc3339_toRfc3339, hyears⟩

theorem publicMetadata_cuts : Cuts (publicMetadata K R) PublicMetadata.Dated PublicMetadata.cut := by
  have hexpiry := (timestamp_cuts hR hyears).optional neverNull_timestamp
  have hthrough : ∀ m : PublicMetadata, (publicMetadata K R).through m =
      ((optional (timestamp K R)).through m.expiresAt).map fun t => { m with expiresAt := t } := by
    intro m
    rw [publicMetadata, record_through (by decide) rfl]
    simp only [List.map_cons, List.map_nil, required_ser, defaulted_ser, lossless_boolean m.expose,
      lossless_text.optional neverNull_text m.description,
      lossless_text.list.optional (neverNull_list text) m.ftsKeywords,
      lossless_text.optional neverNull_text m.prefix_, lossless_text.optional neverNull_text m.last4,
      lossless_text.optional neverNull_text m.fingerprint]
    cases (optional (timestamp K R)).through m.expiresAt <;> rfl
  constructor
  · intro m hm
    rw [hthrough, hexpiry.inside _ hm]
    rfl
  · intro m hm
    rw [hthrough, hexpiry.outside _ hm]
    rfl

theorem secretVersion_cuts : Cuts (secretVersion K R) SecretVersion.Dated SecretVersion.cut := by
  have hcreated := timestamp_cuts hR hyears
  have hdeprecated := hcreated.optional neverNull_timestamp
  have hthrough : ∀ v : SecretVersion, (secretVersion K R).through v =
      ((timestamp K R).through v.createdAt).bind fun createdAt =>
        ((optional (timestamp K R)).through v.deprecatedAt).map fun deprecatedAt =>
          { v with createdAt := createdAt, deprecatedAt := deprecatedAt } := by
    intro v
    rw [secretVersion, record_through (by decide) rfl]
    simp only [List.map_cons, List.map_nil, required_ser, defaulted_ser, lossless_uuidV7 hR v.id,
      lossless_uuidV7 hR v.secretId, lossless_uint32 v.versionNo, lossless_privateBlob v.blob,
      lossless_uint32 v.dekVersion]
    cases (timestamp K R).through v.createdAt <;>
      cases (optional (timestamp K R)).through v.deprecatedAt <;> rfl
  constructor
  · intro v hv
    rw [hthrough, hcreated.inside _ hv.createdAt, hdeprecated.inside _ hv.deprecatedAt]
    rfl
  · intro v hv
    rw [hthrough]
    by_cases h : FourDigitYear v.createdAt
    · rw [hdeprecated.outside _ fun hd => hv ⟨h, hd⟩]
      cases (timestamp K R).through v.createdAt <;> rfl
    · rw [hcreated.outside _ h]
      rfl

/-- **What comes back of a secret**: its times at microseconds, if they are in years of four digits. -/
theorem secret_cuts : Cuts (secret K R) Secret.Dated Secret.cut := by
  have hmetadata := publicMetadata_cuts hR hyears
  have hcreated := timestamp_cuts hR hyears
  have hversions := (secretVersion_cuts hR hyears).list
  have hthrough : ∀ s : Secret, (secret K R).through s =
      ((publicMetadata K R).through s.publicMetadata).bind fun publicMetadata =>
        ((timestamp K R).through s.createdAt).bind fun createdAt =>
          ((list (secretVersion K R)).through s.versions).map fun versions =>
            { s with publicMetadata := publicMetadata, createdAt := createdAt, versions := versions } := by
    intro s
    rw [secret, record_through (by decide) rfl]
    simp only [List.map_cons, List.map_nil, required_ser, lossless_uuidV7 hR s.id,
      lossless_uuidV7 hR s.namespaceId, lossless_handle s.handle, lossless_categoryName s.category,
      lossless_sensitivity s.sensitivity, lossless_tag.list s.tags, lossless_uuidV7 hR s.currentVersionId]
    cases (publicMetadata K R).through s.publicMetadata <;> cases (timestamp K R).through s.createdAt <;>
      cases (list (secretVersion K R)).through s.versions <;> rfl
  constructor
  · intro s hs
    rw [hthrough, hmetadata.inside _ hs.publicMetadata, hcreated.inside _ hs.createdAt,
      hversions.inside _ hs.versions]
    rfl
  · intro s hs
    rw [hthrough]
    by_cases hm : s.publicMetadata.Dated
    · by_cases hc : FourDigitYear s.createdAt
      · rw [hmetadata.inside _ hm, hcreated.inside _ hc, hversions.outside _ fun hv => hs ⟨hm, hc, hv⟩]
        rfl
      · rw [hmetadata.inside _ hm, hcreated.outside _ hc]
        rfl
    · rw [hmetadata.outside _ hm]
      rfl

end Laws

/-! ### The part that the commands work on -/

/-- The tag, as the aggregate holds it. -/
def Tag.aggregate (t : Tag) : Aggregate.Tag := ⟨t.key, t.value.asStr⟩

/-- The metadata, as the aggregate holds it. -/
def PublicMetadata.aggregate (m : PublicMetadata) : Aggregate.PublicMetadata := ⟨m.description, m.expose⟩

/-- The blob, as the aggregate holds it. -/
def PrivateBlob.aggregate (b : PrivateBlob) : Aggregate.PrivateBlob :=
  ⟨b.ciphertext, b.nonce, b.aeadTag, b.associatedData⟩

/-- The version, as the aggregate holds it. -/
def SecretVersion.aggregate (v : SecretVersion) : Aggregate.SecretVersion where
  id := ⟨v.id.inner⟩
  secretId := ⟨v.secretId.inner⟩
  versionNo := v.versionNo
  blob := v.blob.aggregate
  dekVersion := v.dekVersion
  createdAt := v.createdAt
  deprecatedAt := v.deprecatedAt

/-- The secret, as the aggregate holds it. -/
def Secret.aggregate (s : Secret) : Aggregate.Secret where
  id := ⟨s.id.inner⟩
  namespaceId := ⟨s.namespaceId.inner⟩
  handle := s.handle
  category := s.category
  sensitivity := s.sensitivity
  tags := s.tags.map Tag.aggregate
  publicMetadata := s.publicMetadata.aggregate
  createdAt := s.createdAt
  versions := s.versions.map SecretVersion.aggregate
  currentVersionId := ⟨s.currentVersionId.inner⟩

end MerkleVault.Secrets.Serialized
