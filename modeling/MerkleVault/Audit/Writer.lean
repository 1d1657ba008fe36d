import MerkleVault.Audit.Entry

/-! # The Audit Log and Its Writer

`AuditLog` keeps the head hash, the head sequence number and the entries appended in this session;
`PinnedHead` is the head as it is persisted, with its MAC.  `AuditWriter.append` hashes, tags and
pushes one entry.  The identifier and the time it draws are arguments here.  Sequence numbers are
`u64` and wrap, as they do in the release build. -/

namespace MerkleVault.Audit.Writer

open MerkleVault.Types MerkleVault.External MerkleVault.Audit.Entry

variable (K : Crates)

/-! ### The log -/

/-- The writer: the head of the chain and the entries of the session. -/
structure AuditLog where
  head : Option Blake3Hash
  headSeq : UInt64
  entries : List AuditEntry
deriving DecidableEq

namespace AuditLog

/-- `AuditLog::new`. -/
def new : AuditLog := ⟨none, 0, []⟩

/-- The log with an entry at its end. -/
def push (log : AuditLog) (e : AuditEntry) : AuditLog :=
  ⟨some e.currentHash, e.seq, log.entries ++ [e]⟩

/-- `restore_head`: the chain goes on from a persisted head. -/
def restoreHead (head : Blake3Hash) (headSeq : UInt64) : AuditLog := ⟨some head, headSeq, []⟩

/-- `from_persisted`: the log of stored entries. -/
def fromPersisted (entries : List AuditEntry) : AuditLog :=
  ⟨entries.getLast?.map (·.currentHash), (entries.getLast?.map (·.seq)).getD 0, entries⟩

end AuditLog

/-! ### The pinned head -/

/-- The head of the chain, as it is stored. -/
structure PinnedHead where
  headHash : Blake3Hash
  headSeq : UInt64
  headId : AuditEntryId
  updatedAt : Rfc3339Timestamp
  hmacHead : Option HmacSignature
deriving DecidableEq

namespace PinnedHead

/-- `PinnedHead::new`, without a tag. -/
def new (headHash : Blake3Hash) (headSeq : UInt64) (headId : AuditEntryId)
    (updatedAt : Rfc3339Timestamp) : PinnedHead :=
  ⟨headHash, headSeq, headId, updatedAt, none⟩

/-- `compute_head_mac`. -/
def computeHeadMac (p : PinnedHead) (key : Key) (entryCount : UInt64) : HmacSignature :=
  K.keyedHash key (p.headHash.asBytes.toList ++ toLeBytes p.headSeq ++ p.headId.inner.toList ++
    toLeBytes entryCount)

/-- `with_head_mac`. -/
def withHeadMac (p : PinnedHead) (key : Key) (entryCount : UInt64) : PinnedHead :=
  { p with hmacHead := some (computeHeadMac K p key entryCount) }

end PinnedHead

/-! ### The writer -/

/-- `<&[u8; 32]>::try_from`. -/
def keyOfSlice (bytes : List UInt8) : Option Key :=
  if h : bytes.length = 32 then some ⟨bytes.toArray, by simp [h]⟩ else none

theorem keyOfSlice_toList (key : Key) : keyOfSlice key.toList = some key := by
  have h : key.toList.length = 32 := by simp
  unfold keyOfSlice
  rw [dif_pos h]
  exact congrArg some (Vector.toList_inj.mp rfl)

/-- The MAC input of an entry: hash bytes, then identifier bytes. -/
def entryMac (key : Key) (hash : Blake3Hash) (id : AuditEntryId) : HmacSignature :=
  K.keyedHash key (hash.asBytes.toList ++ id.inner.toList)

/-- What a caller says of an entry. -/
structure AppendParams where
  op : AuditOp
  outcome : AuditOutcome
  denialReason : Option DenialReason := none
  namespaceId : NamespaceId
  callerProgram : Option String := none
  handle : Option Handle := none
  sensitivity : Option Sensitivity := none
deriving DecidableEq

/-- The identifier and the time that one call draws. -/
structure Draw where
  id : AuditEntryId
  ts : Rfc3339Timestamp
deriving DecidableEq

/-- The entry before its hash and its tag are filled in. -/
def partialEntry (log : AuditLog) (params : AppendParams) (draw : Draw) : AuditEntry where
  id := draw.id
  seq := match log.head with
    | none => 0
    | some _ => log.headSeq + 1
  ts := draw.ts
  namespaceId := params.namespaceId
  callerProgram := params.callerProgram
  op := params.op
  outcome := params.outcome
  denialReason := params.denialReason
  handle := params.handle
  sensitivity := params.sensitivity
  prevHash := log.head
  currentHash := genesis
  hmac := none

/-- The entry with its hash and the tag over hash and identifier. -/
def finishEntry (key : Key) (part : AuditEntry) (currentHash : Blake3Hash) : AuditEntry :=
  { part with currentHash := currentHash, hmac := some (entryMac K key currentHash part.id) }

/-- The head that pins an entry.  The chain is gap-free, so it holds `seq + 1` entries. -/
def pinEntry (key : Key) (e : AuditEntry) : PinnedHead :=
  (PinnedHead.new e.currentHash e.seq e.id e.ts).withHeadMac K key (e.seq + 1)

/-- `AuditWriter::append`. -/
def append (log : AuditLog) (params : AppendParams) (hmacKey : List UInt8) (draw : Draw) :
    Except DomainError (AuditLog × AuditEntry × PinnedHead) :=
  match keyOfSlice hmacKey with
  | none => .error (.invalidHmacKeyLength hmacKey.length)
  | some key =>
    match canonicalBytesForHashing K (partialEntry log params draw) (log.head.getD genesis) with
    | .error err => .error err
    | .ok canonical =>
      let entry := finishEntry K key (partialEntry log params draw) (K.hash canonical)
      .ok (log.push entry, entry, pinEntry K key entry)

variable {K}

/-- What a successful append did. -/
structure Appended (K : Crates) (log : AuditLog) (params : AppendParams) (draw : Draw) (key : Key)
    (log' : AuditLog) (e : AuditEntry) (h : PinnedHead) : Prop where
  log_eq : log' = log.push e
  part_eq : { e with currentHash := genesis, hmac := none } = partialEntry log params draw
  hash_eq : ∃ bs, canonicalBytesForHashing K e (log.head.getD genesis) = .ok bs ∧
    K.hash bs = e.currentHash
  hmac_eq : e.hmac = some (entryMac K key e.currentHash e.id)
  pinned_eq : h = pinEntry K key e

theorem append_ok {log : AuditLog} {params : AppendParams} {hmacKey : List UInt8} {draw : Draw}
    {log' : AuditLog} {e : AuditEntry} {h : PinnedHead}
    (ha : append K log params hmacKey draw = .ok (log', e, h)) :
    ∃ key, keyOfSlice hmacKey = some key ∧ Appended K log params draw key log' e h := by
  unfold append at ha
  split at ha
  · cases ha
  · next key hkey =>
    refine ⟨key, hkey, ?_⟩
    split at ha
    · cases ha
    · next bs hbs =>
      simp only [Except.ok.injEq, Prod.mk.injEq] at ha
      obtain ⟨rfl, rfl, rfl⟩ := ha
      exact ⟨rfl, rfl, ⟨bs, hbs, rfl⟩, rfl, rfl⟩

/-- Under a 32-byte key the writer always succeeds. -/
theorem exists_append (K : Crates) (log : AuditLog) (params : AppendParams) (key : Key)
    (draw : Draw) : ∃ log' e h, append K log params key.toList draw = .ok (log', e, h) := by
  obtain ⟨bs, hbs⟩ := exists_canonicalBytes K (partialEntry log params draw) (log.head.getD genesis)
  unfold append
  rw [keyOfSlice_toList]
  simp only [hbs]
  exact ⟨_, _, _, rfl⟩

theorem Appended.seq {log log' : AuditLog} {params : AppendParams} {draw : Draw} {key : Key}
    {e : AuditEntry} {h : PinnedHead} (ha : Appended K log params draw key log' e h) :
    e.seq = match log.head with
      | none => 0
      | some _ => log.headSeq + 1 :=
  congrArg AuditEntry.seq ha.part_eq

theorem Appended.prevHash {log log' : AuditLog} {params : AppendParams} {draw : Draw} {key : Key}
    {e : AuditEntry} {h : PinnedHead} (ha : Appended K log params draw key log' e h) :
    e.prevHash = log.head :=
  congrArg AuditEntry.prevHash ha.part_eq

end MerkleVault.Audit.Writer
