import MerkleVault.Audit.Writer

/-! # The Chain Verifier

`verifyRange` walks the entries between two optional bounds, recomputes each hash, checks the tag
when a key is given, and on a full pass also checks the genesis anchor and the pinned head.  Each
check of the source is a function that returns the rejecting result; the loop is a fold that stops
at the first one. -/

namespace MerkleVault.Audit.Verifier

open MerkleVault.Types MerkleVault.External MerkleVault.Audit.Entry MerkleVault.Audit.Writer

variable (K : Crates)

/-- What a verification finds. -/
inductive ChainOutcome
  | intact
  | brokenAtEntry (brokenAtId : AuditEntryId) (expectedPrev : Blake3Hash)
      (actualPrev : Option Blake3Hash)
  | hmacMismatch (entryId : AuditEntryId)
  | missingHmac (entryId : AuditEntryId)
  | genesisAnchorMissing (entryId : AuditEntryId) (foundSeq : UInt64)
  | headMacMismatch (headId : AuditEntryId)
  | truncationDetected (lastPinnedSeq lastActualSeq : UInt64)
  | headHashMismatch (expectedHead actualHead : Blake3Hash)
  | hmacKeyUnavailable
  | entrySerializationFailed (entryId : AuditEntryId)
  | baselineMacMismatch (baselineId : AuditEntryId)
  | baselineEntryMissing (baselineSeq : UInt64)
deriving DecidableEq

/-- The finding, with the counters of the pass. -/
structure ChainVerifyResult where
  outcome : ChainOutcome
  headHash : Option Blake3Hash
  entriesChecked : UInt64
  anomaliesDetected : UInt32
  hmacChecked : Bool
  rangeFromId : Option AuditEntryId
  rangeToId : Option AuditEntryId
  baselineSeq : Option UInt64
  quarantinedBelow : UInt64
  triggeredBy : Option String
  verifiedAt : Rfc3339Timestamp
deriving DecidableEq

/-- State accumulated while walking the entries. -/
structure WalkState where
  lastHash : Blake3Hash
  lastSeq : Option UInt64
  entriesChecked : UInt64
  anomaliesDetected : UInt32
  firstEntry : Bool

/-- Before the first entry. -/
def WalkState.new : WalkState := ⟨genesis, none, 0, 0, true⟩

/-- The bounds of a pass and the time it started. -/
structure Pass where
  fromId : Option AuditEntryId
  toId : Option AuditEntryId
  verifiedAt : Rfc3339Timestamp

/-- A full-range pass has no bounds. -/
def Pass.full (verifiedAt : Rfc3339Timestamp) : Pass := ⟨none, none, verifiedAt⟩

/-- The result that rejects with one more anomaly; every check of the walk ends in one. -/
def reject (outcome : ChainOutcome) (headHash : Option Blake3Hash) (state : WalkState)
    (pass : Pass) : ChainVerifyResult where
  outcome := outcome
  headHash := headHash
  entriesChecked := state.entriesChecked
  anomaliesDetected := state.anomaliesDetected + 1
  hmacChecked := false
  rangeFromId := pass.fromId
  rangeToId := pass.toId
  baselineSeq := none
  quarantinedBelow := 0
  triggeredBy := none
  verifiedAt := pass.verifiedAt

/-- The link of an entry is broken. -/
def brokenAt (entry : AuditEntry) (expectedPrev : Blake3Hash) (state : WalkState) (pass : Pass) :
    ChainVerifyResult :=
  reject (.brokenAtEntry entry.id expectedPrev entry.prevHash) none state pass

/-! ### Checks on one entry -/

/-- Sequence gap and `prev_hash` pointer of an entry that is not the first. -/
def checkLink (entry : AuditEntry) (state : WalkState) (pass : Pass) :
    Except ChainVerifyResult Unit :=
  if state.lastSeq.any (fun prevSeq => entry.seq != prevSeq + 1) then
    .error (brokenAt entry state.lastHash state pass)
  else if entry.prevHash ≠ some state.lastHash then
    .error (brokenAt entry state.lastHash state pass)
  else .ok ()

/-- The hash of an entry is that of its canonical bytes. -/
def checkHash (entry : AuditEntry) (prevForHashing : Blake3Hash) (state : WalkState) (pass : Pass) :
    Except ChainVerifyResult Unit :=
  match canonicalBytesForHashing K entry prevForHashing with
  | .error _ => .error (reject (.entrySerializationFailed entry.id) none state pass)
  | .ok canonical =>
    if K.hash canonical ≠ entry.currentHash then
      .error (brokenAt entry prevForHashing state pass)
    else .ok ()

/-- Without a key the tag is not examined. -/
def checkHmac (entry : AuditEntry) (hmacKey : Option Key) (state : WalkState) (pass : Pass) :
    Except ChainVerifyResult Unit :=
  match hmacKey with
  | none => .ok ()
  | some key =>
    match entry.hmac with
    | none => .error (reject (.missingHmac entry.id) none state pass)
    | some storedHmac =>
      if entryMac K key entry.currentHash entry.id ≠ storedHmac then
        .error (reject (.hmacMismatch entry.id) none state pass)
      else .ok ()

/-- One round of the walk. -/
def checkEntry (hmacKey : Option Key) (pass : Pass) (state : WalkState) (entry : AuditEntry) :
    Except ChainVerifyResult WalkState := do
  let state := { state with entriesChecked := state.entriesChecked + 1 }
  let prevForHashing := if state.firstEntry then entry.prevHash.getD genesis else state.lastHash
  if !state.firstEntry then
    checkLink entry state pass
  checkHash K entry prevForHashing state pass
  checkHmac K entry hmacKey state pass
  return { state with
    lastHash := entry.currentHash
    lastSeq := some entry.seq
    firstEntry := false }

/-- The entries in order, until one is rejected. -/
def walk (hmacKey : Option Key) (pass : Pass) (state : WalkState) (entries : List AuditEntry) :
    Except ChainVerifyResult WalkState :=
  entries.foldlM (checkEntry K hmacKey pass) state

/-! ### Checks on the whole pass -/

/-- Entries up to and including the first with the given identifier. -/
def takeThrough (endId : AuditEntryId) : List AuditEntry → List AuditEntry
  | [] => []
  | e :: es => if e.id = endId then [e] else e :: takeThrough endId es

/-- `slice_entries`: from one id to another, both included. -/
def sliceEntries (log : AuditLog) (fromId toId : Option AuditEntryId) : List AuditEntry :=
  let rest := match fromId with
    | some startId => log.entries.dropWhile (fun e => e.id ≠ startId)
    | none => log.entries
  match toId with
  | some endId => takeThrough endId rest
  | none => rest

/-- A complete chain begins at `seq = 0` with no `prev_hash`. -/
def checkGenesisAnchor (entries : List AuditEntry) (log : AuditLog) (pass : Pass) :
    Option ChainVerifyResult :=
  match entries.head? with
  | none => none
  | some first =>
    if first.seq = 0 ∧ first.prevHash = none then none
    else some { reject (.genesisAnchorMissing first.id first.seq) log.head WalkState.new pass with
      rangeFromId := none
      rangeToId := none }

/-- `u64::saturating_add(1)`. -/
def saturatingSucc (n : UInt64) : UInt64 := if n = UInt64.ofNat (2 ^ 64 - 1) then n else n + 1

/-- The last entry is the one that the pinned head names. -/
def checkHeadCommitment (state : WalkState) (pinnedHead : PinnedHead) (hmacKey : Option Key)
    (pass : Pass) : Option ChainVerifyResult :=
  let finalSeq := state.lastSeq.getD 0
  let authentic := match hmacKey with
    | none => true
    | some key => pinnedHead.hmacHead ==
        some (pinnedHead.computeHeadMac K key (saturatingSucc pinnedHead.headSeq))
  let full := Pass.full pass.verifiedAt
  if !authentic then
    some (reject (.headMacMismatch pinnedHead.headId) (some state.lastHash) state full)
  else if finalSeq < pinnedHead.headSeq then
    some (reject (.truncationDetected pinnedHead.headSeq finalSeq) (some state.lastHash) state full)
  else if state.lastHash ≠ pinnedHead.headHash ∨ finalSeq ≠ pinnedHead.headSeq then
    some (reject (.headHashMismatch pinnedHead.headHash state.lastHash) (some state.lastHash) state
      full)
  else none

/-- The intact result at the end of a pass. -/
def intactResult (state : WalkState) (hmacChecked : Bool) (pass : Pass) : ChainVerifyResult where
  outcome := .intact
  headHash := some state.lastHash
  entriesChecked := state.entriesChecked
  anomaliesDetected := state.anomaliesDetected
  hmacChecked := hmacChecked
  rangeFromId := pass.fromId
  rangeToId := pass.toId
  baselineSeq := none
  quarantinedBelow := 0
  triggeredBy := none
  verifiedAt := pass.verifiedAt

/-- An empty slice is a hash-only request, any other slice must be a key. -/
def keyDiscipline (hmacKey : List UInt8) : Option (Option Key) :=
  if hmacKey = [] then some none else (keyOfSlice hmacKey).map some

/-- The pass after the key and the slice are settled. -/
def verifySlice (log : AuditLog) (pinnedHead : PinnedHead) (pass : Pass) (key : Option Key)
    (entries : List AuditEntry) : ChainVerifyResult :=
  let isFull := pass.fromId.isNone && pass.toId.isNone
  match (if isFull then checkGenesisAnchor entries log pass else none) with
  | some result => result
  | none =>
    match walk K key pass WalkState.new entries with
    | .error result => result
    | .ok state =>
      match (if isFull then checkHeadCommitment K state pinnedHead key pass else none) with
      | some result => result
      | none => intactResult state key.isSome pass

/-- `verify_range`. -/
def verifyRange (log : AuditLog) (pinnedHead : PinnedHead) (fromId toId : Option AuditEntryId)
    (hmacKey : List UInt8) (now : Rfc3339Timestamp) : ChainVerifyResult :=
  let pass : Pass := ⟨fromId, toId, now⟩
  match keyDiscipline hmacKey with
  | none => reject .hmacKeyUnavailable log.head WalkState.new pass
  | some key =>
    let entries := sliceEntries log fromId toId
    if entries = [] ∧ (fromId.isSome ∨ toId.isSome) then
      -- a window that matched no entry: intact, but no tag was looked at
      { intactResult WalkState.new false pass with headHash := log.head }
    else verifySlice K log pinnedHead pass key entries

/-- The full pass, from the genesis entry to the last. -/
def verifyFull (log : AuditLog) (pinnedHead : PinnedHead) (hmacKey : List UInt8)
    (now : Rfc3339Timestamp) : ChainVerifyResult :=
  verifyRange K log pinnedHead none none hmacKey now

end MerkleVault.Audit.Verifier
