import MerkleVault.Types
import Mathlib

/-! # The Secret Aggregate

A secret and its versions, with rotation, rollback and retention.  `rotate` deprecates the version
that `current_version_id` names, appends the new one and prunes the oldest versions beyond the
retention count; `rollbackTo` rotates to a copy of an older version.  The identifiers and times that
the source draws are arguments. -/

namespace MerkleVault.Secrets.Aggregate

open MerkleVault.Types

/-- `SecretVersionId`. -/
structure SecretVersionId where
  inner : Uuid
deriving DecidableEq

/-- The encrypted envelope of a version. -/
structure PrivateBlob where
  ciphertext : List UInt8
  nonce : Vector UInt8 24
  aeadTag : Vector UInt8 16
  associatedData : List UInt8
deriving DecidableEq

/-- A version of a secret. -/
structure SecretVersion where
  id : SecretVersionId
  secretId : SecretId
  versionNo : UInt32
  blob : PrivateBlob
  dekVersion : UInt32
  createdAt : Rfc3339Timestamp
  deprecatedAt : Option Rfc3339Timestamp
deriving DecidableEq

/-- `is_active`: it is not deprecated. -/
def SecretVersion.isActive (v : SecretVersion) : Bool := v.deprecatedAt.isNone

/-- The keys of tags. -/
inductive TagKey
  | env | project | role | provider | team
deriving DecidableEq, Repr

/-- `FromStr` of a tag key. -/
def TagKey.fromStr : String → Option TagKey
  | "env" => some .env
  | "project" => some .project
  | "role" => some .role
  | "provider" => some .provider
  | "team" => some .team
  | _ => none

/-- A key with its value. -/
structure Tag where
  key : TagKey
  value : String
deriving DecidableEq, Repr

/-- The part of the public metadata that the commands set. -/
structure PublicMetadata where
  description : Option String
  expose : Bool
deriving DecidableEq, Repr

/-- The aggregate. -/
structure Secret where
  id : SecretId
  namespaceId : NamespaceId
  handle : Handle
  category : CategoryName
  sensitivity : Sensitivity
  tags : List Tag
  publicMetadata : PublicMetadata
  createdAt : Rfc3339Timestamp
  versions : List SecretVersion
  currentVersionId : SecretVersionId
deriving DecidableEq

/-- The errors of the aggregate. -/
inductive DomainError
  | handleCategoryMismatch (handle secret : String)
  | duplicateTag (tag : Tag)
  | highSensitivityMissingEnvTag
  | exposeOnHighSensitivity
  | nonMonotonicVersionNumber (current new : UInt32)
  | currentVersionNotFound (id : SecretVersionId)
  | targetVersionNotFound (versionNo : UInt32)
deriving DecidableEq

/-! ### Construction -/

/-- The first tag that occurs again later. -/
def findDuplicateTag : List Tag → Option Tag
  | [] => none
  | t :: ts => if t ∈ ts then some t else findDuplicateTag ts

/-- The identifiers and the time that a call draws. -/
structure Fresh where
  secretId : SecretId
  versionId : SecretVersionId
  now : Rfc3339Timestamp
deriving DecidableEq

/-- `Secret::new`: the first version, under the rules of its tags. -/
def Secret.new (namespaceId : NamespaceId) (handle : Handle) (category : CategoryName)
    (sensitivity : Sensitivity) (tags : List Tag) (publicMetadata : PublicMetadata)
    (initialVersion : SecretVersion) (fresh : Fresh) : Except DomainError Secret :=
  if handle.category.asStr ≠ category.asStr then
    .error (.handleCategoryMismatch handle.category.asStr category.asStr)
  else match findDuplicateTag tags with
    | some t => .error (.duplicateTag t)
    | none =>
      if sensitivity = .high ∧ !tags.any (fun t => t.key = .env) then
        .error .highSensitivityMissingEnvTag
      else if sensitivity = .high ∧ publicMetadata.expose then
        .error .exposeOnHighSensitivity
      else .ok {
        id := fresh.secretId
        namespaceId := namespaceId
        handle := handle
        category := category
        sensitivity := sensitivity
        tags := tags
        publicMetadata := publicMetadata
        createdAt := fresh.now
        versions := [initialVersion]
        currentVersionId := initialVersion.id }

/-- The fields of a new secret. -/
theorem secretNew_ok {namespaceId : NamespaceId} {handle : Handle} {category : CategoryName}
    {sensitivity : Sensitivity} {tags : List Tag} {metadata : PublicMetadata} {v : SecretVersion}
    {fresh : Fresh} {secret : Secret}
    (h : Secret.new namespaceId handle category sensitivity tags metadata v fresh = .ok secret) :
    secret = ⟨fresh.secretId, namespaceId, handle, category, sensitivity, tags, metadata, fresh.now,
      [v], v.id⟩ := by
  unfold Secret.new at h
  split at h
  · cases h
  · split at h
    · cases h
    · split_ifs at h
      exact (Except.ok.inj h).symm

/-! ### Rotation, rollback and retention -/

/-- `versions.iter().map(|v| v.version_no).max().unwrap_or(0)`. -/
def maxVersionNo (versions : List SecretVersion) : UInt32 :=
  versions.foldl (fun m v => max m v.versionNo) 0

/-- A version is deprecated once; the time stays. -/
def setDeprecated (now : Rfc3339Timestamp) (v : SecretVersion) : SecretVersion :=
  { v with deprecatedAt := some (v.deprecatedAt.getD now) }

/-- Deprecate the first version with the given identifier. -/
def deprecateFirst (id : SecretVersionId) (now : Rfc3339Timestamp) :
    List SecretVersion → List SecretVersion
  | [] => []
  | v :: vs => if v.id = id then setDeprecated now v :: vs else v :: deprecateFirst id now vs

/-- `RetentionPolicy::apply`: the oldest versions beyond the count are dropped. -/
def retentionApply (retainCount : Nat) (versions : List SecretVersion) : List SecretVersion :=
  if versions.length ≤ retainCount then versions
  else (versions.mergeSort fun a b => a.versionNo ≤ b.versionNo).drop (versions.length - retainCount)

/-- The retention count of the rotate and rollback commands. -/
def retainCount : Nat := 3

/-- `current_version`. -/
def Secret.currentVersion (s : Secret) : Option SecretVersion :=
  s.versions.find? fun v => v.id = s.currentVersionId

/-- The version that a reveal decrypts. -/
def Secret.activeVersion (s : Secret) : Option SecretVersion :=
  s.versions.find? SecretVersion.isActive

/-- `rotate`: a higher version becomes the current one. -/
def Secret.rotate (s : Secret) (newVersion : SecretVersion) (retain : Nat)
    (now : Rfc3339Timestamp) : Except DomainError Secret :=
  if newVersion.versionNo ≤ maxVersionNo s.versions then
    .error (.nonMonotonicVersionNumber (maxVersionNo s.versions) newVersion.versionNo)
  else if !s.versions.any (fun v => v.id = s.currentVersionId) then
    .error (.currentVersionNotFound s.currentVersionId)
  else .ok { s with
    versions := retentionApply retain
      (deprecateFirst s.currentVersionId now s.versions ++ [newVersion])
    currentVersionId := newVersion.id }

/-- The version that a rollback rotates to: the target's blob under the next number. -/
def rollbackVersion (s : Secret) (target : SecretVersion) (fresh : Fresh) : SecretVersion where
  id := fresh.versionId
  secretId := s.id
  versionNo := maxVersionNo s.versions + 1
  blob := target.blob
  dekVersion := target.dekVersion
  createdAt := fresh.now
  deprecatedAt := none

/-- `rollback_to`: a new version with the value of an old one. -/
def Secret.rollbackTo (s : Secret) (targetVersionNo : UInt32) (retain : Nat) (fresh : Fresh) :
    Except DomainError Secret :=
  match s.versions.find? fun v => v.versionNo = targetVersionNo with
  | none => .error (.targetVersionNotFound targetVersionNo)
  | some target => s.rotate (rollbackVersion s target fresh) retain fresh.now

end MerkleVault.Secrets.Aggregate
