import MerkleVault.Audit.Writer
import MerkleVault.Identity
import MerkleVault.Secrets.Aggregate

/-! # The SQLite Store

The tables that the commands write, with the constraints of the schema: primary keys, `UNIQUE`
columns, foreign keys and cascades.  Each write is one transaction, so it either gives the new store
or an error and leaves the store as it was; it may also fail for reasons of its own, which the
callers add.  Rows are kept in the order they were inserted. -/

namespace MerkleVault.Sqlite.Tables

open MerkleVault.Types MerkleVault.Identity MerkleVault.Audit.Entry MerkleVault.Audit.Writer
open MerkleVault.Secrets.Aggregate

/-- Errors of the storage port. -/
inductive StorageError
  | notFound
  | conflict (detail : String)
  | constraint (detail : String)
  | transient (detail : String)
  | backend (detail : String)
  | fts5Inconsistent (detail : String)
deriving DecidableEq, Repr

/-- A violated `UNIQUE` index. -/
def uniqueViolation (columns : String) : StorageError :=
  .conflict ("UNIQUE constraint failed: " ++ columns)

/-- What SQLite says of a missing parent row. -/
def foreignKeyViolation : StorageError := .backend "FOREIGN KEY constraint failed"

/-- A row of `namespaces`. -/
structure Namespace where
  id : NamespaceId
  label : NamespaceLabel
  cwdHash : Option String
  dekVersion : UInt32
  createdAt : Rfc3339Timestamp
deriving DecidableEq

/-- Whether and how secrets are revealed. -/
structure RevealPolicy where
  allowed : Bool
  requireOobAbove : Sensitivity
  requireSlashCommand : Bool
deriving DecidableEq, Repr

/-- The part of a namespace policy that the socket and the commands read. -/
structure NamespacePolicy where
  namespaceId : NamespaceId
  securityProfile : SecurityProfile
  reveal : RevealPolicy
  allowedConsumers : List String
deriving DecidableEq

/-- `NamespacePolicy::defaults_for(SecurityProfile::Balanced)` for a namespace. -/
def NamespacePolicy.balanced (namespaceId : NamespaceId) : NamespacePolicy :=
  ⟨namespaceId, .balanced, ⟨true, .high, true⟩, []⟩

/-- A row of `secrets`. -/
structure SecretRow where
  id : SecretId
  namespaceId : NamespaceId
  handle : Handle
  category : CategoryName
  sensitivity : Sensitivity
  tags : List Tag
  publicMetadata : PublicMetadata
  createdAt : Rfc3339Timestamp
  currentVersionId : SecretVersionId
deriving DecidableEq

/-- The classes of devices. -/
inductive CompanionDeviceClass
  | software | secureEnclave | hardwareToken
deriving DecidableEq, Repr

/-- The order of the classes. -/
def CompanionDeviceClass.rank : CompanionDeviceClass → Nat
  | .software => 0
  | .secureEnclave => 1
  | .hardwareToken => 2

/-- A row of `companion_devices`. -/
structure CompanionDevice where
  deviceId : Uuid
  ed25519Pubkey : Key
  x25519Pubkey : Key
  deviceClass : CompanionDeviceClass
  attestationChain : List UInt8
  enrolledAt : Rfc3339Timestamp
  revokedAt : Option Rfc3339Timestamp
deriving DecidableEq

/-- The tables. -/
structure Store where
  namespaces : List Namespace
  policies : List NamespacePolicy
  secrets : List SecretRow
  versions : List SecretVersion
  auditEntries : List AuditEntry
  pinnedHead : Option PinnedHead
  companionDevices : List CompanionDevice

/-- The tables of a fresh database. -/
def Store.empty : Store := ⟨[], [], [], [], [], none, []⟩

/-! ### Namespaces and policies -/

/-- `get_namespace_by_label`. -/
def Store.getNamespaceByLabel (st : Store) (label : NamespaceLabel) : Option Namespace :=
  st.namespaces.find? fun n => n.label = label

/-- `get_namespace_by_id`. -/
def Store.getNamespaceById (st : Store) (id : NamespaceId) : Option Namespace :=
  st.namespaces.find? fun n => n.id = id

/-- `put_namespace`: a label belongs to one id. -/
def Store.putNamespace (st : Store) (ns : Namespace) : Except StorageError Store :=
  if st.namespaces.any (fun n => n.id ≠ ns.id && n.label = ns.label) then
    .error (uniqueViolation "namespaces.label")
  else if st.namespaces.any (fun n => n.id = ns.id) then
    .ok { st with namespaces := st.namespaces.map fun n =>
      if n.id = ns.id then { ns with createdAt := n.createdAt } else n }
  else .ok { st with namespaces := st.namespaces ++ [ns] }

/-- `get_namespace_policy`. -/
def Store.getNamespacePolicy (st : Store) (id : NamespaceId) : Option NamespacePolicy :=
  st.policies.find? fun p => p.namespaceId = id

/-- `put_namespace_policy`: the namespace must be there. -/
def Store.putNamespacePolicy (st : Store) (policy : NamespacePolicy) : Except StorageError Store :=
  if !st.namespaces.any (fun n => n.id = policy.namespaceId) then
    .error foreignKeyViolation
  else if st.policies.any (fun p => p.namespaceId = policy.namespaceId) then
    .ok { st with policies := st.policies.map fun p =>
      if p.namespaceId = policy.namespaceId then policy else p }
  else .ok { st with policies := st.policies ++ [policy] }

/-! ### Companion devices -/

/-- `ORDER BY enrolled_at ASC`. -/
def Store.listCompanionDevices (st : Store) : List CompanionDevice :=
  st.companionDevices.mergeSort fun a b => !b.enrolledAt.lt a.enrolledAt

theorem mem_listCompanionDevices {st : Store} {d : CompanionDevice} :
    d ∈ st.listCompanionDevices ↔ d ∈ st.companionDevices := List.mem_mergeSort

theorem listCompanionDevices_of_sorted (st : Store) (h : st.companionDevices.Pairwise fun a b =>
    b.enrolledAt.lt a.enrolledAt = false) : st.listCompanionDevices = st.companionDevices :=
  List.mergeSort_of_pairwise (h.imp fun hab => by rw [hab]; rfl)

/-! ### Secrets and versions -/

/-- The row of a secret. -/
def rowOf (s : Secret) : SecretRow :=
  ⟨s.id, s.namespaceId, s.handle, s.category, s.sensitivity, s.tags, s.publicMetadata, s.createdAt,
    s.currentVersionId⟩

/-- `row_to_secret`. -/
def secretOf (row : SecretRow) (versions : List SecretVersion) : Secret :=
  ⟨row.id, row.namespaceId, row.handle, row.category, row.sensitivity, row.tags,
    row.publicMetadata, row.createdAt, versions, row.currentVersionId⟩

/-- `ON CONFLICT(id) DO UPDATE` of `secrets`: namespace, category and creation time stay. -/
def updateRow (old : SecretRow) (s : Secret) : SecretRow :=
  { old with
    handle := s.handle
    sensitivity := s.sensitivity
    tags := s.tags
    publicMetadata := s.publicMetadata
    currentVersionId := s.currentVersionId }

/-- The upsert of a secret's row; a handle belongs to one id. -/
def upsertSecretRow (st : Store) (s : Secret) : Except StorageError Store :=
  if st.secrets.any (fun r => r.id ≠ s.id && r.handle = s.handle) then
    .error (uniqueViolation "secrets.handle")
  else if st.secrets.any (fun r => r.id = s.id) then
    .ok { st with secrets := st.secrets.map fun r => if r.id = s.id then updateRow r s else r }
  else if !st.namespaces.any (fun n => n.id = s.namespaceId) then
    .error foreignKeyViolation
  else .ok { st with secrets := st.secrets ++ [rowOf s] }

/-- Insert a version under its parent, or update `deprecated_at` of the row with its identifier. -/
def upsertVersionWithParent (parentId : SecretId) (vs : List SecretVersion) (v : SecretVersion) :
    Except StorageError (List SecretVersion) :=
  if vs.any (fun r => r.id = v.id) then
    .ok (vs.map fun r => if r.id = v.id then { r with deprecatedAt := v.deprecatedAt } else r)
  else if vs.any (fun r => r.secretId = parentId && r.versionNo = v.versionNo) then
    .error (uniqueViolation "secret_versions.secret_id, secret_versions.version_no")
  else .ok (vs ++ [{ v with secretId := parentId }])

/-- `put_secret`: the row and every version of the aggregate in one transaction. -/
def Store.putSecret (st : Store) (s : Secret) : Except StorageError Store := do
  let st ← upsertSecretRow st s
  let vs ← s.versions.foldlM (upsertVersionWithParent s.id) st.versions
  return { st with versions := vs }

theorem upsertSecretRow_ok {st st' : Store} {secret : Secret}
    (h : upsertSecretRow st secret = .ok st') : st' = { st with secrets := st'.secrets } := by
  unfold upsertSecretRow at h
  split_ifs at h
  · obtain rfl := Except.ok.inj h
    rfl
  · obtain rfl := Except.ok.inj h
    rfl

theorem putSecret_ok {st st' : Store} {secret : Secret} (h : st.putSecret secret = .ok st') :
    ∃ st₁ vs, upsertSecretRow st secret = .ok st₁ ∧
      secret.versions.foldlM (upsertVersionWithParent secret.id) st.versions = .ok vs ∧
      st' = { st₁ with versions := vs } := by
  unfold Store.putSecret at h
  cases h₁ : upsertSecretRow st secret with
  | error e =>
    rw [h₁] at h
    cases h
  | ok st₁ =>
    have hv : st₁.versions = st.versions := by
      rw [upsertSecretRow_ok h₁]
    rw [h₁] at h
    change (secret.versions.foldlM (upsertVersionWithParent secret.id) st₁.versions >>= fun vs =>
      Except.ok { st₁ with versions := vs }) = .ok st' at h
    rw [hv] at h
    cases h₂ : secret.versions.foldlM (upsertVersionWithParent secret.id) st.versions with
    | error e =>
      rw [h₂] at h
      cases h
    | ok vs =>
      rw [h₂] at h
      exact ⟨st₁, vs, rfl, rfl, (Except.ok.inj h).symm⟩

/-- The first statement of `get_secret_by_handle`. -/
def Store.selectSecretRow (st : Store) (handle : Handle) : Option SecretRow :=
  st.secrets.find? fun r => r.handle = handle

/-- The second: `WHERE secret_id = ?1 ORDER BY version_no ASC`. -/
def Store.loadVersionsForSecret (st : Store) (id : SecretId) : List SecretVersion :=
  (st.versions.filter fun v => v.secretId = id).mergeSort fun a b => a.versionNo ≤ b.versionNo

/-- `get_secret_by_handle` when nothing is written between its two statements. -/
def Store.getSecretByHandle (st : Store) (handle : Handle) : Option Secret :=
  (st.selectSecretRow handle).map fun row => secretOf row (st.loadVersionsForSecret row.id)

/-- `delete_secret`, with the versions below it. -/
def Store.deleteSecret (st : Store) (id : SecretId) : Except StorageError Store :=
  if !st.secrets.any (fun r => r.id = id) then .error .notFound
  else .ok { st with
    secrets := st.secrets.filter fun r => r.id ≠ id
    versions := st.versions.filter fun v => v.secretId ≠ id }

/-! ### The audit chain -/

/-- `i64::try_from(n).unwrap_or(i64::MAX)`. -/
def saturateI64 (n : UInt64) : UInt64 :=
  if n.toNat < 2 ^ 63 then n else UInt64.ofNat (2 ^ 63 - 1)

/-- `commit_audit_entry`: the entry and the head that pins it in one transaction. -/
def Store.commitAuditEntry (st : Store) (entry : AuditEntry) (head : PinnedHead) :
    Except StorageError Store :=
  let row := { entry with seq := saturateI64 entry.seq }
  if st.auditEntries.any (fun r => r.id = row.id) then .error (uniqueViolation "audit_entries.id")
  else if st.auditEntries.any (fun r => r.seq = row.seq) then
    .error (uniqueViolation "audit_entries.seq")
  else if st.auditEntries.any (fun r => r.currentHash = row.currentHash) then
    .error (uniqueViolation "audit_entries.current_hash")
  else .ok { st with
    auditEntries := st.auditEntries ++ [row]
    pinnedHead := some { head with headSeq := saturateI64 head.headSeq } }

end MerkleVault.Sqlite.Tables
