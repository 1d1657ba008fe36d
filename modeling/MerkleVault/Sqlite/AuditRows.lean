import MerkleVault.Sqlite.Tables
import MerkleVault.Audit.Baseline

/-! # The Audit Tables, Column by Column

`audit_entries`, `pinned_head` and `audit_baseline` as SQLite keeps them: identifiers as blobs,
sequence numbers as `i64`, everything else as text.  The writers print each field into its column
and the row mappers read it back.

* `commit_represents`: the tables refine the audit part of the `Store` that the commands use;
* `rowToAuditEntry_entryRow`: an entry comes back with its timestamp cut to the microsecond;
* `reload_preserves_verification`: so the chain verifier says of the reloaded log what it says of the
  log in memory. -/

namespace MerkleVault.Sqlite.AuditRows

open MerkleVault.Types MerkleVault.External MerkleVault.Lib.Json MerkleVault.Sqlite.Tables
open MerkleVault.Audit.Entry MerkleVault.Audit.Writer MerkleVault.Audit.Verifier
open MerkleVault.Audit.Chain MerkleVault.Audit.Integrity MerkleVault.Audit.Baseline

/-! ### Reading texts -/

/-- The errors of the value objects that the audit rows are made of. -/
inductive ParseError
  | invalidUuidV7 (text : String)
  | invalidBlake3Hash (text : String)
  | invalidRfc3339 (text : String)
  | invalidHandle (text : String)
  | unknownAuditOp (text : String)
  | unknownAuditOutcome (text : String)
  | unknownSecurityProfile (text : String)
deriving DecidableEq

/-- `Display` of a parse error. -/
def ParseError.display : ParseError → String
  | invalidUuidV7 text => "invalid UUIDv7: " ++ text
  | invalidBlake3Hash text => "invalid BLAKE3 hash: " ++ text
  | invalidRfc3339 text => "invalid RFC3339 timestamp: " ++ text
  | invalidHandle text => "invalid Handle URI: " ++ text
  | unknownAuditOp text => "unknown AuditOp: " ++ text
  | unknownAuditOutcome text => "unknown AuditOutcome: " ++ text
  | unknownSecurityProfile text => "unknown SecurityProfile: " ++ text

/-- The readers of the crates outside the repository. -/
structure Readers where
  /-- `Uuid::parse_str`. -/
  parseUuid : String → Option Uuid
  /-- `DateTime::parse_from_rfc3339`, moved to UTC. -/
  parseRfc3339 : String → Option Rfc3339Timestamp

/-- From the first second of year 0 to the last of year 9999, the years RFC 3339 can write. -/
def FourDigitYear (t : Rfc3339Timestamp) : Prop :=
  -62167219200 ≤ t.timestamp ∧ t.timestamp ≤ 253402300799

/-- What the readers make of the texts that the printers produce. -/
structure Readers.Lawful (R : Readers) (K : Crates) : Prop where
  parseUuid_hyphenated : ∀ u, R.parseUuid (K.hyphenated u) = some u
  /-- Six digits of the second are printed, so what is read back is the instant at microseconds. -/
  parseRfc3339_toRfc3339 : ∀ t, FourDigitYear t → R.parseRfc3339 (K.toRfc3339 t) = some t.atMicros
  /-- The digits below a microsecond are not printed. -/
  toRfc3339_micros : ∀ a b, a.micros = b.micros → K.toRfc3339 a = K.toRfc3339 b

section Parsers

variable (R : Readers)

/-- `Uuid::get_version_num`. -/
def versionNum (u : Uuid) : Nat := (u.get 6).toNat / 16

/-- `UuidV7::from_str`. -/
def parseUuidV7 (s : String) : Except ParseError Uuid :=
  match R.parseUuid s with
  | none => .error (.invalidUuidV7 s)
  | some uuid =>
    if versionNum uuid ≠ 7 then
      .error (.invalidUuidV7 ("expected version 7, got version " ++ toString (versionNum uuid)))
    else .ok uuid

/-- `Rfc3339Timestamp::from_str`. -/
def parseTimestamp (s : String) : Except ParseError Rfc3339Timestamp :=
  match R.parseRfc3339 s with
  | none => .error (.invalidRfc3339 s)
  | some t => .ok t

end Parsers

/-- The value of a hexadecimal digit, of either case. -/
def nibble (c : Char) : Option Nat :=
  if '0' ≤ c ∧ c ≤ '9' then some (c.toNat - '0'.toNat)
  else if 'a' ≤ c ∧ c ≤ 'f' then some (c.toNat - 'a'.toNat + 10)
  else if 'A' ≤ c ∧ c ≤ 'F' then some (c.toNat - 'A'.toNat + 10)
  else none

/-- `hex::decode`. -/
def hexDecode : List Char → Option (List UInt8)
  | [] => some []
  | [_] => none
  | hi :: lo :: rest => do
    let high ← nibble hi
    let low ← nibble lo
    let bytes ← hexDecode rest
    return UInt8.ofNat (16 * high + low) :: bytes

/-- `hex::decode_to_slice` into 32 bytes. -/
def hexDecode32 (cs : List Char) : Option (Vector UInt8 32) := (hexDecode cs).bind keyOfSlice

/-- `str::len`, in bytes. -/
def strLen (cs : List Char) : Nat := (cs.map Char.utf8Size).sum

/-- `Blake3Hash::from_str`. -/
def parseHash (s : String) : Except ParseError Blake3Hash :=
  match ("blake3:".toList).isPrefixOf? s.toList with
  | none => .error (.invalidBlake3Hash s)
  | some hexPart =>
    if strLen hexPart ≠ 64 then
      .error (.invalidBlake3Hash ("expected 64 hex chars after prefix, got " ++
        toString (strLen hexPart)))
    else match hexDecode32 hexPart with
      | none => .error (.invalidBlake3Hash s)
      | some bytes => .ok ⟨bytes⟩

/-- `HmacSignature::from_str`. -/
def parseSignature (s : String) : Except ParseError HmacSignature :=
  if strLen s.toList ≠ 64 then
    .error (.invalidBlake3Hash ("HMAC signature must be 64 hex chars, got " ++
      toString (strLen s.toList)))
  else match hexDecode32 s.toList with
    | none => .error (.invalidBlake3Hash s)
    | some bytes => .ok ⟨bytes⟩

/-- What `Handle::from_str` says of a text it refuses. -/
def handleFault (s : String) : String :=
  let parts : Option (List Char × List Char × List Char) := do
    let path ← ("vault://".toList).isPrefixOf? s.toList
    let (label, rest) ← cutAtSlash path
    let (category, name) ← cutAtSlash rest
    if label = [] ∨ category = [] ∨ name = [] then none else return (label, category, name)
  match parts with
  | none => s
  | some (label, category, name) =>
    if (NamespaceLabel.fromStr (String.ofList label)).isNone then
      "invalid namespace: " ++ String.ofList label
    else if (CategoryName.fromStr (String.ofList category)).isNone then
      "invalid category: " ++ String.ofList category
    else "invalid secret name: " ++ String.ofList name

/-- `parse_handle`. -/
def parseHandle (s : String) : Except ParseError Handle :=
  match Handle.fromStr s with
  | none => .error (.invalidHandle (handleFault s))
  | some h => .ok h

/-- `parse_op`. -/
def parseOp (s : String) : Except ParseError AuditOp :=
  match AuditOp.fromStr s with
  | none => .error (.unknownAuditOp s)
  | some op => .ok op

/-- `parse_outcome`. -/
def parseOutcome (s : String) : Except ParseError AuditOutcome :=
  match AuditOutcome.fromStr s with
  | none => .error (.unknownAuditOutcome s)
  | some outcome => .ok outcome

/-- `Sensitivity::from_str`, which reports an unknown text as an unknown security profile. -/
def parseSensitivity (s : String) : Except ParseError Sensitivity :=
  match Sensitivity.fromStr s with
  | none => .error (.unknownSecurityProfile s)
  | some sensitivity => .ok sensitivity

/-! ### Columns -/

/-- `i64::try_from(n).unwrap_or(i64::MAX)`. -/
def toI64 (n : UInt64) : Int := if n.toNat < 2 ^ 63 then n.toNat else 2 ^ 63 - 1

/-- `u64::try_from(i).unwrap_or(0)`. -/
def ofI64 (i : Int) : UInt64 := if 0 ≤ i then UInt64.ofNat i.toNat else 0

/-- A row of `audit_entries`. -/
structure EntryRow where
  id : List UInt8
  seq : Int
  ts : String
  namespaceId : List UInt8
  callerProgram : Option String
  op : String
  outcome : String
  denialReason : Option String
  handle : Option String
  sensitivity : Option String
  prevHash : Option String
  currentHash : String
  hmac : Option String
deriving DecidableEq

/-- The row of `pinned_head`. -/
structure HeadRow where
  headHash : String
  headSeq : Int
  headId : List UInt8
  updatedAt : String
  hmacHead : Option String
deriving DecidableEq

/-- The row of `audit_baseline`. -/
structure BaselineRow where
  baselineSeq : Int
  baselineId : List UInt8
  baselineHash : String
  entryCount : Int
  reason : String
  createdAt : String
  hmac : Option String
deriving DecidableEq

/-- The rows of the log, of its head and of its baseline. -/
structure AuditTables where
  auditEntries : List EntryRow
  pinnedHead : Option HeadRow
  auditBaseline : Option BaselineRow
deriving DecidableEq

/-- A database without a log. -/
def AuditTables.empty : AuditTables := ⟨[], none, none⟩

/-! ### Writing -/

section Writing

variable (K : Crates)

/-- What `insert_entry_tx` binds. -/
def entryRow (entry : AuditEntry) : EntryRow where
  id := entry.id.inner.toList
  seq := toI64 entry.seq
  ts := K.toRfc3339 entry.ts
  namespaceId := entry.namespaceId.inner.toList
  callerProgram := entry.callerProgram
  op := entry.op.display
  outcome := entry.outcome.display
  denialReason := entry.denialReason.map DenialReason.asStr
  handle := entry.handle.map Handle.display
  sensitivity := entry.sensitivity.map Sensitivity.display
  prevHash := entry.prevHash.map displayHash
  currentHash := displayHash entry.currentHash
  hmac := entry.hmac.map displaySignature

/-- What `upsert_pinned_head_tx` is given for a head. -/
def headRow (head : PinnedHead) : HeadRow where
  headHash := displayHash head.headHash
  headSeq := toI64 head.headSeq
  headId := head.headId.inner.toList
  updatedAt := K.toRfc3339 head.updatedAt
  hmacHead := head.hmacHead.map displaySignature

/-- The row of a baseline. -/
def baselineRow (baseline : AuditBaseline) : BaselineRow where
  baselineSeq := toI64 baseline.baselineSeq
  baselineId := baseline.baselineId.inner.toList
  baselineHash := displayHash baseline.baselineHash
  entryCount := toI64 baseline.entryCount
  reason := baseline.reason
  createdAt := K.toRfc3339 baseline.createdAt
  hmac := baseline.hmac.map displaySignature

/-- `insert_entry_tx`. -/
def AuditTables.insertEntryTx (t : AuditTables) (entry : AuditEntry) :
    Except StorageError AuditTables :=
  let row := entryRow K entry
  if t.auditEntries.any (fun r => r.id = row.id) then .error (uniqueViolation "audit_entries.id")
  else if t.auditEntries.any (fun r => r.seq = row.seq) then
    .error (uniqueViolation "audit_entries.seq")
  else if t.auditEntries.any (fun r => r.currentHash = row.currentHash) then
    .error (uniqueViolation "audit_entries.current_hash")
  else .ok { t with auditEntries := t.auditEntries ++ [row] }

/-- `commit_audit_entry`: the entry and the head that pins it, in one transaction. -/
def AuditTables.commitAuditEntry (t : AuditTables) (entry : AuditEntry) (head : PinnedHead) :
    Except StorageError AuditTables :=
  match t.insertEntryTx K entry with
  | .error err => .error err
  | .ok t' => .ok { t' with pinnedHead := some (headRow K head) }

/-- `set_audit_baseline`. -/
def AuditTables.setAuditBaseline (t : AuditTables) (baseline : AuditBaseline) : AuditTables :=
  { t with auditBaseline := some (baselineRow K baseline) }

/-- The entries of a log with the heads that pin them, one commit each. -/
def AuditTables.commitAll : AuditTables → List (AuditEntry × PinnedHead) →
    Except StorageError AuditTables
  | t, [] => .ok t
  | t, (entry, head) :: rest => do
    let t' ← t.commitAuditEntry K entry head
    t'.commitAll rest

end Writing

/-! ### Reading -/

/-- `AdapterError::Parse`, the only error of a row mapper. -/
structure AdapterError where
  parse : String
deriving DecidableEq

/-- `StorageError::from`. -/
def AdapterError.toStorage (e : AdapterError) : StorageError := .constraint e.parse

/-- `.map_err(|e| AdapterError::Parse(e.to_string()))`. -/
def orParse {α : Type} : Except ParseError α → Except AdapterError α
  | .ok a => .ok a
  | .error e => .error ⟨e.display⟩

/-- `.as_deref().map(str::parse).transpose()`. -/
def parseOpt {α : Type} (parse : String → Except ParseError α) :
    Option String → Except AdapterError (Option α)
  | none => .ok none
  | some s => (orParse (parse s)).map some

section Reading

variable (K : Crates) (R : Readers)

/-- `blob_to_uuid`: the blob is printed and read as a UUID of version 7. -/
def blobToUuid (bytes : List UInt8) : Except AdapterError Uuid :=
  if h : bytes.length = 16 then
    let text := K.hyphenated ⟨bytes.toArray, by simp [h]⟩
    match parseUuidV7 R text with
    | .ok uuid => .ok uuid
    | .error _ => .error ⟨"non-v7 UUID in DB: " ++ text⟩
  else .error ⟨"expected 16-byte UUID blob, got " ++ toString bytes.length ++ " bytes"⟩

/-- A blob of 16 bytes, as the id of an entry. -/
def blobToAuditEntryId (bytes : List UInt8) : Except AdapterError AuditEntryId :=
  (blobToUuid K R bytes).map AuditEntryId.mk

/-- A blob of 16 bytes, as the id of a namespace. -/
def blobToNamespaceId (bytes : List UInt8) : Except AdapterError NamespaceId :=
  (blobToUuid K R bytes).map NamespaceId.mk

/-- `row_to_audit_entry`. -/
def rowToAuditEntry (row : EntryRow) : Except AdapterError AuditEntry := do
  let id ← blobToAuditEntryId K R row.id
  let ts ← orParse (parseTimestamp R row.ts)
  let namespaceId ← blobToNamespaceId K R row.namespaceId
  let op ← orParse (parseOp row.op)
  let outcome ← orParse (parseOutcome row.outcome)
  let denialReason := row.denialReason.map DenialReason.mk
  let handle ← parseOpt parseHandle row.handle
  let sensitivity ← parseOpt parseSensitivity row.sensitivity
  let prevHash ← parseOpt parseHash row.prevHash
  let currentHash ← orParse (parseHash row.currentHash)
  let hmac ← parseOpt parseSignature row.hmac
  return {
    id, seq := ofI64 row.seq, ts, namespaceId, callerProgram := row.callerProgram, op, outcome,
    denialReason, handle, sensitivity, prevHash, currentHash, hmac }

/-- `row_to_pinned_head`. -/
def rowToPinnedHead (row : HeadRow) : Except AdapterError PinnedHead := do
  let headHash ← orParse (parseHash row.headHash)
  let headId ← blobToAuditEntryId K R row.headId
  let updatedAt ← orParse (parseTimestamp R row.updatedAt)
  let hmacHead ← parseOpt parseSignature row.hmacHead
  return { PinnedHead.new headHash (ofI64 row.headSeq) headId updatedAt with hmacHead }

/-- `row_to_audit_baseline`. -/
def rowToAuditBaseline (row : BaselineRow) : Except AdapterError AuditBaseline := do
  let baselineId ← blobToAuditEntryId K R row.baselineId
  let baselineHash ← orParse (parseHash row.baselineHash)
  let createdAt ← orParse (parseTimestamp R row.createdAt)
  let hmac ← parseOpt parseSignature row.hmac
  return { AuditBaseline.new (ofI64 row.baselineSeq) baselineId baselineHash (ofI64 row.entryCount)
    row.reason createdAt with hmac }

/-- `AuditSnapshot`: the log, its head and its baseline, read together. -/
structure AuditSnapshot where
  entries : List AuditEntry
  pinnedHead : Option PinnedHead
  baseline : Option AuditBaseline
deriving DecidableEq

/-- `ORDER BY seq ASC`. -/
def orderBySeq (rows : List EntryRow) : List EntryRow :=
  rows.mergeSort fun a b => decide (a.seq ≤ b.seq)

/-- `audit_snapshot`: the three reads of one transaction. -/
def AuditTables.auditSnapshot (t : AuditTables) : Except StorageError AuditSnapshot := do
  let entries ← (orderBySeq t.auditEntries).mapM fun row =>
    (rowToAuditEntry K R row).mapError AdapterError.toStorage
  let pinnedHead ← t.pinnedHead.mapM fun row =>
    (rowToPinnedHead K R row).mapError AdapterError.toStorage
  let baseline ← t.auditBaseline.mapM fun row =>
    (rowToAuditBaseline K R row).mapError AdapterError.toStorage
  return { entries, pinnedHead, baseline }

end Reading

/-! ### What is written is read back -/

theorem nibble_hexDigit {n : Nat} (h : n < 16) : nibble (hexDigit n) = some n := by
  have : ∀ m : Fin 16, nibble (hexDigit m) = some m.val := by decide
  exact this ⟨n, h⟩

theorem hexDecode_hexBytes (bs : List UInt8) : hexDecode (hexBytes bs) = some bs := by
  induction bs with
  | nil => rfl
  | cons b bs ih =>
    have hb := b.toNat_lt
    have hhigh : nibble (hexDigit (b.toNat / 16)) = some (b.toNat / 16) :=
      nibble_hexDigit (by omega)
    have hlow : nibble (hexDigit (b.toNat % 16)) = some (b.toNat % 16) :=
      nibble_hexDigit (by omega)
    have hbyte : UInt8.ofNat (16 * (b.toNat / 16) + b.toNat % 16) = b := by
      rw [Nat.div_add_mod, UInt8.ofNat_toNat]
    have hcons : hexBytes (b :: bs) =
        hexDigit (b.toNat / 16) :: hexDigit (b.toNat % 16) :: hexBytes bs := rfl
    rw [hcons, hexDecode, hhigh, hlow, ih]
    exact congrArg (fun x => some (x :: bs)) hbyte

theorem hexDecode32_hexBytes (v : Vector UInt8 32) : hexDecode32 (hexBytes v.toList) = some v := by
  unfold hexDecode32
  rw [hexDecode_hexBytes, Option.bind_some, keyOfSlice_toList]

/-- Digits are one byte each. -/
theorem strLen_hexBytes (bs : List UInt8) : strLen (hexBytes bs) = 2 * bs.length := by
  have hd : ∀ n : Fin 16, (hexDigit n).utf8Size = 1 := by decide
  have hsize : ∀ c ∈ hexBytes bs, Char.utf8Size c = 1 := by
    intro c hc
    obtain ⟨b, -, hb⟩ := List.mem_flatMap.mp hc
    have := b.toNat_lt
    simp only [List.mem_cons, List.not_mem_nil, or_false] at hb
    rcases hb with rfl | rfl
    · exact hd ⟨b.toNat / 16, by omega⟩
    · exact hd ⟨b.toNat % 16, by omega⟩
  unfold strLen
  rw [List.map_congr_left hsize, List.map_const', List.sum_replicate, length_hexBytes]
  simp

theorem parseHash_display (h : Blake3Hash) : parseHash (displayHash h) = .ok h := by
  have htext : (displayHash h).toList = "blake3:".toList ++ hexBytes h.asBytes.toList :=
    String.toList_ofList
  have hcut : ("blake3:".toList).isPrefixOf? (displayHash h).toList =
      some (hexBytes h.asBytes.toList) := by
    rw [List.isPrefixOf?_eq_some_iff_append_eq, htext]
  have hlen : strLen (hexBytes h.asBytes.toList) = 64 := by
    rw [strLen_hexBytes, Vector.length_toList]
  unfold parseHash
  simp only [hcut, hlen, hexDecode32_hexBytes, ne_eq, not_true_eq_false, if_false]

theorem parseSignature_display (h : HmacSignature) : parseSignature (displaySignature h) = .ok h := by
  have hlen : strLen (hexBytes h.asBytes.toList) = 64 := by
    rw [strLen_hexBytes, Vector.length_toList]
  unfold parseSignature displaySignature
  simp only [String.toList_ofList, hlen, hexDecode32_hexBytes, ne_eq, not_true_eq_false, if_false]

theorem parseHandle_display (h : Handle) : parseHandle h.display = .ok h := by
  simp only [parseHandle, Handle.fromStr_display]

theorem parseOp_display (op : AuditOp) : parseOp op.display = .ok op := by
  simp only [parseOp, AuditOp.fromStr_display]

theorem parseOutcome_display (o : AuditOutcome) : parseOutcome o.display = .ok o := by
  simp only [parseOutcome, AuditOutcome.fromStr_display]

theorem parseSensitivity_display (s : Sensitivity) : parseSensitivity s.display = .ok s := by
  simp only [parseSensitivity, Sensitivity.fromStr_display]

/-- An optional column is read back when its parser reads back what its printer writes. -/
theorem parseOpt_map {α : Type} {parse : String → Except ParseError α} {print : α → String}
    (h : ∀ a, parse (print a) = .ok a) (o : Option α) : parseOpt parse (o.map print) = .ok o := by
  cases o with
  | none => rfl
  | some a =>
    show (orParse (parse (print a))).map some = .ok (some a)
    rw [h]
    rfl

/-- A number that passed through its column is saturated. -/
theorem ofI64_toI64 (n : UInt64) : ofI64 (toI64 n) = saturateI64 n := by
  unfold toI64 ofI64 saturateI64
  by_cases h : n.toNat < 2 ^ 63
  · rw [if_pos h, if_pos h, if_pos (Int.natCast_nonneg _), Int.toNat_natCast, UInt64.ofNat_toNat]
  · rw [if_neg h, if_neg h]
    rfl

theorem saturateI64_of_lt {n : UInt64} (h : n.toNat < 2 ^ 63) : saturateI64 n = n := if_pos h

section Reload

variable {K : Crates} {R : Readers}

theorem blobToUuid_toList (hR : R.Lawful K) {u : Uuid} (hu : versionNum u = 7) :
    blobToUuid K R u.toList = .ok u := by
  have hlen : u.toList.length = 16 := by simp
  have hvec : (⟨u.toList.toArray, by simp⟩ : Uuid) = u := Vector.toList_inj.mp rfl
  unfold blobToUuid
  rw [dif_pos hlen]
  simp only [hvec, parseUuidV7, hR.parseUuid_hyphenated, hu, ne_eq, not_true_eq_false, if_false]

theorem parseTimestamp_toRfc3339 (hR : R.Lawful K) {t : Rfc3339Timestamp} (ht : FourDigitYear t) :
    parseTimestamp R (K.toRfc3339 t) = .ok t.atMicros := by
  simp only [parseTimestamp, hR.parseRfc3339_toRfc3339 t ht]

/-- The entry as it comes back: its time at microseconds. -/
def stored (e : AuditEntry) : AuditEntry := { e with ts := e.ts.atMicros }

/-- What the types and the clock give an entry, and a sequence number that fits an `i64`. -/
structure Storable (e : AuditEntry) : Prop where
  id : versionNum e.id.inner = 7
  namespaceId : versionNum e.namespaceId.inner = 7
  ts : FourDigitYear e.ts
  seq : e.seq.toNat < 2 ^ 63

/-- What the types and the clock give an entry. -/
structure Printable (e : AuditEntry) : Prop where
  id : versionNum e.id.inner = 7
  namespaceId : versionNum e.namespaceId.inner = 7
  ts : FourDigitYear e.ts

/-- The entry as it comes back, its number saturated too. -/
def reloaded (e : AuditEntry) : AuditEntry := { stored e with seq := saturateI64 e.seq }

/-- **An entry is read back from its row.** -/
theorem rowToAuditEntry_entryRow (hR : R.Lawful K) {e : AuditEntry} (he : Printable e) :
    rowToAuditEntry K R (entryRow K e) = .ok (reloaded e) := by
  have hreason : (e.denialReason.map DenialReason.asStr).map DenialReason.mk = e.denialReason := by
    rw [Option.map_map]
    exact Option.map_id_apply
  unfold rowToAuditEntry entryRow
  simp only [blobToAuditEntryId, blobToNamespaceId, blobToUuid_toList hR he.id,
    blobToUuid_toList hR he.namespaceId, parseTimestamp_toRfc3339 hR he.ts, parseOp_display,
    parseOutcome_display, parseHash_display, parseOpt_map parseHandle_display,
    parseOpt_map parseSensitivity_display, parseOpt_map parseHash_display,
    parseOpt_map parseSignature_display, ofI64_toI64, hreason]
  rfl

theorem Storable.printable {e : AuditEntry} (he : Storable e) : Printable e :=
  ⟨he.id, he.namespaceId, he.ts⟩

theorem Storable.reloaded_eq {e : AuditEntry} (he : Storable e) : reloaded e = stored e := by
  rw [reloaded, saturateI64_of_lt he.seq]
  rfl

theorem rowToPinnedHead_headRow (hR : R.Lawful K) {h : PinnedHead}
    (hid : versionNum h.headId.inner = 7) (ht : FourDigitYear h.updatedAt)
    (hseq : h.headSeq.toNat < 2 ^ 63) :
    rowToPinnedHead K R (headRow K h) = .ok { h with updatedAt := h.updatedAt.atMicros } := by
  unfold rowToPinnedHead headRow
  simp only [blobToAuditEntryId, blobToUuid_toList hR hid, parseTimestamp_toRfc3339 hR ht,
    parseHash_display, parseOpt_map parseSignature_display, ofI64_toI64, saturateI64_of_lt hseq]
  rfl

/-- What the types and the clock give a baseline. -/
structure StorableBaseline (b : AuditBaseline) : Prop where
  baselineId : versionNum b.baselineId.inner = 7
  createdAt : FourDigitYear b.createdAt

/-- The baseline as it comes back: its numbers saturated, its time at microseconds. -/
def storedBaseline (b : AuditBaseline) : AuditBaseline :=
  { b with
    baselineSeq := saturateI64 b.baselineSeq
    entryCount := saturateI64 b.entryCount
    createdAt := b.createdAt.atMicros }

theorem rowToAuditBaseline_baselineRow (hR : R.Lawful K) {b : AuditBaseline}
    (hb : StorableBaseline b) :
    rowToAuditBaseline K R (baselineRow K b) = .ok (storedBaseline b) := by
  unfold rowToAuditBaseline baselineRow
  simp only [blobToAuditEntryId, blobToUuid_toList hR hb.baselineId,
    parseTimestamp_toRfc3339 hR hb.createdAt, parseHash_display, parseOpt_map parseSignature_display,
    ofI64_toI64]
  rfl

/-! ### Commits, one after another -/

/-- No `UNIQUE` column is shared. -/
structure Apart (r r' : EntryRow) : Prop where
  id : r.id ≠ r'.id
  seq : r.seq ≠ r'.seq
  currentHash : r.currentHash ≠ r'.currentHash

theorem insertEntryTx_ok {t t' : AuditTables} {e : AuditEntry} :
    t.insertEntryTx K e = .ok t' ↔ (∀ r ∈ t.auditEntries, Apart r (entryRow K e)) ∧
      t' = { t with auditEntries := t.auditEntries ++ [entryRow K e] } := by
  unfold AuditTables.insertEntryTx
  simp only [List.any_eq_true, decide_eq_true_eq]
  constructor
  · intro h
    split_ifs at h with hid hseq hhash
    refine ⟨fun r hr => ⟨?_, ?_, ?_⟩, (Except.ok.inj h).symm⟩
    · exact fun heq => hid ⟨r, hr, heq⟩
    · exact fun heq => hseq ⟨r, hr, heq⟩
    · exact fun heq => hhash ⟨r, hr, heq⟩
  · rintro ⟨hr, rfl⟩
    rw [if_neg, if_neg, if_neg]
    · rintro ⟨r, hm, heq⟩
      exact (hr r hm).currentHash heq
    · rintro ⟨r, hm, heq⟩
      exact (hr r hm).seq heq
    · rintro ⟨r, hm, heq⟩
      exact (hr r hm).id heq

theorem commitAuditEntry_ok {t t' : AuditTables} {e : AuditEntry} {head : PinnedHead} :
    t.commitAuditEntry K e head = .ok t' ↔ (∀ r ∈ t.auditEntries, Apart r (entryRow K e)) ∧
      t' = { t with
        auditEntries := t.auditEntries ++ [entryRow K e]
        pinnedHead := some (headRow K head) } := by
  unfold AuditTables.commitAuditEntry
  constructor
  · intro h
    split at h
    · cases h
    · next t₁ ht₁ =>
      obtain ⟨hr, rfl⟩ := insertEntryTx_ok.mp ht₁
      exact ⟨hr, (Except.ok.inj h).symm⟩
  · rintro ⟨hr, rfl⟩
    rw [insertEntryTx_ok.mpr ⟨hr, rfl⟩]

theorem commitAll_cons {t t' : AuditTables} {w : AuditEntry × PinnedHead}
    {ws : List (AuditEntry × PinnedHead)} :
    t.commitAll K (w :: ws) = .ok t' ↔
      ∃ t₁, t.commitAuditEntry K w.1 w.2 = .ok t₁ ∧ t₁.commitAll K ws = .ok t' := by
  rw [AuditTables.commitAll]
  cases t.commitAuditEntry K w.1 w.2 with
  | error err => exact ⟨(fun h => nomatch h), (fun ⟨_, h, _⟩ => nomatch h)⟩
  | ok t₁ => exact ⟨fun h => ⟨t₁, rfl, h⟩, fun ⟨_, h₁, h⟩ => Except.ok.inj h₁ ▸ h⟩

/-- The rows of the entries of a log. -/
def entryRows (K : Crates) (ws : List (AuditEntry × PinnedHead)) : List EntryRow :=
  ws.map fun w => entryRow K w.1

theorem commitAll_ok {ws : List (AuditEntry × PinnedHead)} : ∀ {t t' : AuditTables},
    t.commitAll K ws = .ok t' → t' = { t with
      auditEntries := t.auditEntries ++ entryRows K ws
      pinnedHead := (ws.getLast?.map fun w => headRow K w.2).or t.pinnedHead } := by
  induction ws with
  | nil =>
    intro t t' h
    rw [← Except.ok.inj h]
    simp [entryRows]
  | cons w ws ih =>
    intro t t' h
    obtain ⟨t₁, h₁, h₂⟩ := commitAll_cons.mp h
    obtain ⟨-, rfl⟩ := commitAuditEntry_ok.mp h₁
    rw [ih h₂]
    cases ws with
    | nil => simp [entryRows]
    | cons w' ws =>
      obtain ⟨last, hlast⟩ : ∃ last, (w' :: ws).getLast? = some last :=
        ⟨_, List.getLast?_eq_some_getLast (by simp)⟩
      rw [List.getLast?_cons_cons, hlast]
      simp [entryRows]

/-- Every commit goes through just when the rows share no `UNIQUE` column. -/
theorem exists_commitAll_iff {ws : List (AuditEntry × PinnedHead)} : ∀ {t : AuditTables},
    t.auditEntries.Pairwise Apart →
    ((∃ t', t.commitAll K ws = .ok t') ↔ (t.auditEntries ++ entryRows K ws).Pairwise Apart) := by
  induction ws with
  | nil =>
    intro t ht
    simp only [entryRows, List.map_nil, List.append_nil, ht, iff_true]
    exact ⟨t, rfl⟩
  | cons w ws ih =>
    intro t ht
    have hrows : t.auditEntries ++ entryRows K (w :: ws) =
        (t.auditEntries ++ [entryRow K w.1]) ++ entryRows K ws := by simp [entryRows]
    have hone : (t.auditEntries ++ [entryRow K w.1]).Pairwise Apart ↔
        ∀ r ∈ t.auditEntries, Apart r (entryRow K w.1) := by
      simp [List.pairwise_append, ht]
    rw [hrows]
    constructor
    · rintro ⟨t', h⟩
      obtain ⟨t₁, h₁, h₂⟩ := commitAll_cons.mp h
      obtain ⟨hr, rfl⟩ := commitAuditEntry_ok.mp h₁
      exact (ih (hone.mpr hr)).mp ⟨t', h₂⟩
    · intro hp
      have hfront := (List.pairwise_append.mp hp).1
      obtain ⟨t', ht'⟩ := (ih (t := { t with
        auditEntries := t.auditEntries ++ [entryRow K w.1]
        pinnedHead := some (headRow K w.2) }) hfront).mpr hp
      exact ⟨t', commitAll_cons.mpr ⟨_, commitAuditEntry_ok.mpr ⟨hone.mp hfront, rfl⟩, ht'⟩⟩

/-! ### The tables and the store -/

/-- The tables hold the rows of the audit entries and the head of a store. -/
structure Represents (K : Crates) (t : AuditTables) (st : Store) : Prop where
  auditEntries : t.auditEntries = st.auditEntries.map (entryRow K)
  pinnedHead : t.pinnedHead = st.pinnedHead.map (headRow K)
  fits : ∀ r ∈ st.auditEntries, r.seq.toNat < 2 ^ 63

theorem saturateI64_lt (n : UInt64) : (saturateI64 n).toNat < 2 ^ 63 := by
  unfold saturateI64
  by_cases h : n.toNat < 2 ^ 63
  · rwa [if_pos h]
  · rw [if_neg h]
    decide

theorem toI64_saturateI64 (n : UInt64) : toI64 (saturateI64 n) = toI64 n := by
  unfold toI64
  rw [if_pos (saturateI64_lt n)]
  unfold saturateI64
  by_cases h : n.toNat < 2 ^ 63
  · rw [if_pos h, if_pos h]
  · rw [if_neg h, if_neg h]
    rfl

/-- Within the range of the column, numbers are compared as they are. -/
theorem toI64_eq_iff {m n : UInt64} (hm : m.toNat < 2 ^ 63) : toI64 m = toI64 n ↔ m = saturateI64 n := by
  constructor
  · intro h
    rw [← saturateI64_of_lt hm, ← ofI64_toI64, ← ofI64_toI64, h]
  · rintro rfl
    exact toI64_saturateI64 n

/-- A column of the rows is searched as its field is among the entries. -/
theorem any_entryRow {es : List AuditEntry} {p : EntryRow → Prop} {q : AuditEntry → Prop}
    [DecidablePred p] [DecidablePred q] (h : ∀ e ∈ es, p (entryRow K e) ↔ q e) :
    (es.map (entryRow K)).any (fun r => p r) = es.any fun e => q e := by
  rw [Bool.eq_iff_iff, List.any_eq_true, List.any_eq_true]
  constructor
  · rintro ⟨r, hr, hp⟩
    obtain ⟨e, he, rfl⟩ := List.mem_map.mp hr
    exact ⟨e, he, decide_eq_true ((h e he).mp (of_decide_eq_true hp))⟩
  · rintro ⟨e, he, hq⟩
    exact ⟨_, List.mem_map_of_mem he, decide_eq_true ((h e he).mpr (of_decide_eq_true hq))⟩

/-- **The tables refine the store**: a commit succeeds on both or fails on both with one error. -/
theorem commit_represents {t : AuditTables} {st : Store} (hrep : Represents K t st)
    (entry : AuditEntry) (head : PinnedHead) :
    (∃ err, t.commitAuditEntry K entry head = .error err ∧
      st.commitAuditEntry entry head = .error err) ∨
    ∃ t' st', t.commitAuditEntry K entry head = .ok t' ∧ st.commitAuditEntry entry head = .ok st' ∧
      Represents K t' st' := by
  have hid : t.auditEntries.any (fun r => r.id = (entryRow K entry).id) =
      st.auditEntries.any (fun r => r.id = entry.id) := by
    rw [hrep.auditEntries]
    refine any_entryRow fun r _ => ⟨fun h => ?_, fun h => ?_⟩
    · exact congrArg AuditEntryId.mk (Vector.toList_inj.mp h)
    · exact congrArg (fun i : AuditEntryId => i.inner.toList) h
  have hseq : t.auditEntries.any (fun r => r.seq = (entryRow K entry).seq) =
      st.auditEntries.any (fun r => r.seq = saturateI64 entry.seq) := by
    rw [hrep.auditEntries]
    exact any_entryRow fun r hr => toI64_eq_iff (hrep.fits r hr)
  have hhash : t.auditEntries.any (fun r => r.currentHash = (entryRow K entry).currentHash) =
      st.auditEntries.any (fun r => r.currentHash = entry.currentHash) := by
    rw [hrep.auditEntries]
    exact any_entryRow fun r _ => displayHash_injective.eq_iff
  unfold AuditTables.commitAuditEntry AuditTables.insertEntryTx Store.commitAuditEntry
  simp only [hid, hseq, hhash]
  by_cases h₁ : st.auditEntries.any (fun r => r.id = entry.id) = true
  · simp only [h₁, if_true]
    exact .inl ⟨_, rfl, rfl⟩
  by_cases h₂ : st.auditEntries.any (fun r => r.seq = saturateI64 entry.seq) = true
  · simp only [h₁, h₂, if_true]
    exact .inl ⟨_, rfl, rfl⟩
  by_cases h₃ : st.auditEntries.any (fun r => r.currentHash = entry.currentHash) = true
  · simp only [h₁, h₂, h₃, if_true]
    exact .inl ⟨_, rfl, rfl⟩
  simp only [h₁, h₂, h₃]
  refine .inr ⟨_, _, rfl, rfl, ?_, ?_, ?_⟩
  · simp only [hrep.auditEntries, List.map_append, List.map_cons, List.map_nil, entryRow,
      toI64_saturateI64]
  · simp only [Option.map_some, headRow, toI64_saturateI64]
  · intro r hr
    rcases List.mem_append.mp hr with hr | hr
    · exact hrep.fits r hr
    · rw [List.mem_singleton.mp hr]
      exact saturateI64_lt entry.seq

/-! ### Logs built by the writer -/

/-- A log built by appends, with each entry returned and the head that pins it. -/
inductive Built (K : Crates) : AuditLog → List (AuditEntry × PinnedHead) → Prop
  | new : Built K AuditLog.new []
  | restoreHead (head : Blake3Hash) (headSeq : UInt64) :
      Built K (AuditLog.restoreHead head headSeq) []
  | append {log log' : AuditLog} {ws : List (AuditEntry × PinnedHead)} {params : AppendParams}
      {hmacKey : List UInt8} {draw : Draw} {e : AuditEntry} {head : PinnedHead} :
      Built K log ws → append K log params hmacKey draw = .ok (log', e, head) →
      Built K log' (ws ++ [(e, head)])

theorem Built.entries {log : AuditLog} {ws : List (AuditEntry × PinnedHead)} (h : Built K log ws) :
    log.entries = ws.map Prod.fst := by
  induction h with
  | new => rfl
  | restoreHead => rfl
  | append _ ha ih =>
    obtain ⟨key, -, ha⟩ := append_ok ha
    rw [ha.log_eq, AuditLog.push, ih]
    simp

/-- After an append the log is the one its entries give. -/
theorem Built.fromPersisted {log : AuditLog} {ws : List (AuditEntry × PinnedHead)}
    (h : Built K log ws) (hne : ws ≠ []) : log = AuditLog.fromPersisted log.entries := by
  cases h with
  | new => exact absurd rfl hne
  | restoreHead => exact absurd rfl hne
  | append _ ha =>
    obtain ⟨key, -, ha⟩ := append_ok ha
    rw [ha.log_eq]
    simp [AuditLog.push, AuditLog.fromPersisted]

theorem Built.pins {log : AuditLog} {ws : List (AuditEntry × PinnedHead)} (h : Built K log ws) :
    ∀ w ∈ ws, w.2.headId = w.1.id ∧ w.2.headSeq = w.1.seq ∧ w.2.updatedAt = w.1.ts := by
  induction h with
  | new => simp
  | restoreHead => simp
  | append _ ha ih =>
    obtain ⟨key, -, ha⟩ := append_ok ha
    intro w hw
    rcases List.mem_append.mp hw with hw | hw
    · exact ih w hw
    · rw [List.mem_singleton.mp hw, ha.pinned_eq]
      exact ⟨rfl, rfl, rfl⟩

/-- While the numbers fit an `i64` they do not wrap, so each is above the ones before it. -/
theorem Built.increasing {log : AuditLog} {ws : List (AuditEntry × PinnedHead)} (h : Built K log ws)
    (hs : ∀ w ∈ ws, w.1.seq.toNat < 2 ^ 63) :
    (ws.Pairwise fun w w' => w.1.seq.toNat < w'.1.seq.toNat) ∧
    ∀ w ∈ ws, log.head.isSome = true ∧ w.1.seq.toNat ≤ log.headSeq.toNat ∧
      log.headSeq.toNat < 2 ^ 63 := by
  induction h with
  | new => simp
  | restoreHead => simp
  | @append log log' ws _ _ _ e _ _ ha ih =>
    obtain ⟨key, -, ha⟩ := append_ok ha
    obtain ⟨hp, hhead⟩ := ih fun w hw => hs w (List.mem_append_left _ hw)
    have he : e.seq.toNat < 2 ^ 63 := hs _ (List.mem_append_right _ (List.mem_singleton.mpr rfl))
    have hlt : ∀ w ∈ ws, w.1.seq.toNat < e.seq.toNat := by
      intro w hw
      obtain ⟨hsome, hle, hbound⟩ := hhead w hw
      obtain ⟨hash, hh⟩ := Option.isSome_iff_exists.mp hsome
      have hseq := ha.seq
      rw [hh] at hseq
      have hnext : e.seq.toNat = log.headSeq.toNat + 1 := by
        rw [hseq, UInt64.toNat_add, UInt64.toNat_one]
        omega
      omega
    rw [ha.log_eq]
    refine ⟨List.pairwise_append.mpr ⟨hp, List.pairwise_singleton _ _, ?_⟩, ?_⟩
    · intro w hw w' hw'
      rw [List.mem_singleton.mp hw']
      exact hlt w hw
    · intro w hw
      rcases List.mem_append.mp hw with hw | hw
      · exact ⟨rfl, (hlt w hw).le, he⟩
      · rw [List.mem_singleton.mp hw]
        exact ⟨rfl, le_rfl, he⟩

/-- The rows of a log that fits are apart when its identifiers and its hashes are. -/
theorem Built.rows_apart {log : AuditLog} {ws : List (AuditEntry × PinnedHead)} (h : Built K log ws)
    (hs : ∀ w ∈ ws, w.1.seq.toNat < 2 ^ 63) :
    (entryRows K ws).Pairwise Apart ↔
      (log.entries.map AuditEntry.id).Nodup ∧ (log.entries.map AuditEntry.currentHash).Nodup := by
  have hseq := (h.increasing hs).1
  have hnum : ∀ w ∈ ws, toI64 w.1.seq = w.1.seq.toNat := fun w hw => if_pos (hs w hw)
  rw [h.entries, List.map_map, List.map_map, List.Nodup, List.Nodup, List.pairwise_map,
    List.pairwise_map, ← List.pairwise_and_iff, entryRows, List.pairwise_map]
  constructor
  · intro hp
    refine hp.imp fun {w w'} ha => ⟨?_, ?_⟩
    · intro heq
      exact ha.id (congrArg (fun i : AuditEntryId => i.inner.toList) heq)
    · intro heq
      exact ha.currentHash (congrArg displayHash heq)
  · intro hp
    refine (hp.and hseq).imp_of_mem fun {w w'} hw hw' ha => ⟨?_, ?_, ?_⟩
    · intro heq
      exact ha.1.1 (congrArg AuditEntryId.mk (Vector.toList_inj.mp heq))
    · intro heq
      have hlt := ha.2
      simp only [entryRow, hnum w hw, hnum w' hw'] at heq
      omega
    · intro heq
      exact ha.1.2 (displayHash_injective heq)

/-! ### The verifier on stored entries -/

theorem canonicalBytes_stored (hR : R.Lawful K) (e : AuditEntry) (p : Blake3Hash) :
    canonicalBytesForHashing K (stored e) p = canonicalBytesForHashing K e p := by
  have hts : K.toRfc3339 e.ts.atMicros = K.toRfc3339 e.ts :=
    hR.toRfc3339_micros _ _ e.ts.micros_atMicros
  have hmap : canonicalMap K (stored e) = canonicalMap K e := by
    unfold canonicalMap stored
    rw [hts]
  unfold canonicalBytesForHashing
  rw [hmap]

/-- A round of the walk does not see that the entry was stored. -/
theorem checkEntry_stored (hR : R.Lawful K) (key : Option Key) (pass : Pass) (st : WalkState)
    (e : AuditEntry) : checkEntry K key pass st (stored e) = checkEntry K key pass st e := by
  have hhash : ∀ prev st, checkHash K (stored e) prev st pass = checkHash K e prev st pass := by
    intro prev st
    unfold checkHash
    rw [canonicalBytes_stored hR]
    rfl
  unfold checkEntry
  simp only [hhash]
  rfl

theorem walk_stored (hR : R.Lawful K) (key : Option Key) (pass : Pass) (es : List AuditEntry)
    (st : WalkState) : walk K key pass st (es.map stored) = walk K key pass st es := by
  unfold walk
  rw [List.foldlM_map]
  simp only [checkEntry_stored hR]

theorem takeThrough_stored (endId : AuditEntryId) (es : List AuditEntry) :
    takeThrough endId (es.map stored) = (takeThrough endId es).map stored := by
  induction es with
  | nil => rfl
  | cons e es ih =>
    simp only [List.map_cons, takeThrough, ih]
    by_cases he : e.id = endId
    · rw [if_pos he, if_pos (show (stored e).id = endId from he)]
      rfl
    · rw [if_neg he, if_neg (show (stored e).id ≠ endId from he)]
      rfl

/-- The log with its entries stored. -/
def storedLog (log : AuditLog) : AuditLog := { log with entries := log.entries.map stored }

theorem sliceEntries_stored (log : AuditLog) (fromId toId : Option AuditEntryId) :
    sliceEntries (storedLog log) fromId toId = (sliceEntries log fromId toId).map stored := by
  have hrest : ∀ startId, (log.entries.map stored).dropWhile (fun e => e.id ≠ startId) =
      (log.entries.dropWhile fun e => e.id ≠ startId).map stored := by
    intro startId
    rw [List.dropWhile_map]
    rfl
  unfold sliceEntries storedLog
  cases fromId with
  | none =>
    cases toId with
    | none => rfl
    | some endId => exact takeThrough_stored endId log.entries
  | some startId =>
    cases toId with
    | none => exact hrest startId
    | some endId =>
      simp only [hrest startId]
      exact takeThrough_stored endId _

theorem checkGenesisAnchor_stored (es : List AuditEntry) (log : AuditLog) (pass : Pass) :
    checkGenesisAnchor (es.map stored) (storedLog log) pass = checkGenesisAnchor es log pass := by
  cases es with
  | nil => rfl
  | cons e es => rfl

/-- The time of a head is not verified. -/
theorem checkHeadCommitment_updatedAt (st : WalkState) (head : PinnedHead) (t : Rfc3339Timestamp)
    (key : Option Key) (pass : Pass) :
    checkHeadCommitment K st { head with updatedAt := t } key pass =
      checkHeadCommitment K st head key pass := rfl

theorem verifyRange_stored (hR : R.Lawful K) (log : AuditLog) (head : PinnedHead)
    (t : Rfc3339Timestamp) (fromId toId : Option AuditEntryId) (hmacKey : List UInt8)
    (now : Rfc3339Timestamp) :
    verifyRange K (storedLog log) { head with updatedAt := t } fromId toId hmacKey now =
      verifyRange K log head fromId toId hmacKey now := by
  unfold verifyRange
  cases keyDiscipline hmacKey with
  | none => rfl
  | some key =>
    simp only [sliceEntries_stored, List.map_eq_nil_iff]
    unfold verifySlice
    simp only [checkGenesisAnchor_stored, walk_stored hR, checkHeadCommitment_updatedAt]
    rfl

theorem verifyFromBaseline_stored (hR : R.Lawful K) (log : AuditLog) (head : PinnedHead)
    (b : AuditBaseline) (t u : Rfc3339Timestamp) (hmacKey : List UInt8) (now : Rfc3339Timestamp) :
    verifyFromBaseline K (storedLog log) { head with updatedAt := t } { b with createdAt := u }
        hmacKey now =
      verifyFromBaseline K log head b hmacKey now := by
  have hround : ∀ key pass st e,
      checkFromBaseline K { b with createdAt := u } key pass st (stored e) =
        checkFromBaseline K b key pass st e := by
    intro key pass st e
    unfold checkFromBaseline
    rw [checkEntry_stored hR]
    rfl
  have hwalk : ∀ key, walkFromBaseline K (storedLog log) { head with updatedAt := t }
      { b with createdAt := u } key now = walkFromBaseline K log head b key now := by
    intro key
    unfold walkFromBaseline
    simp only [sliceEntries_stored, checkGenesisAnchor_stored, List.foldlM_map, hround,
      checkHeadCommitment_updatedAt]
    rfl
  unfold verifyFromBaseline
  simp only [hwalk]
  rfl

/-! ### The reloaded log -/

theorem mapM_ok {α β ε : Type} {f : α → Except ε β} {g : α → β} {l : List α}
    (h : ∀ a ∈ l, f a = .ok (g a)) : l.mapM f = .ok (l.map g) := by
  induction l with
  | nil => rfl
  | cons a l ih =>
    rw [List.mapM_cons, h a List.mem_cons_self, ih fun b hb => h b (List.mem_cons_of_mem _ hb)]
    rfl

/-- The rows of a log that fits already stand in the order of the query. -/
theorem Built.orderBySeq_rows {log : AuditLog} {ws : List (AuditEntry × PinnedHead)}
    (h : Built K log ws) (hs : ∀ w ∈ ws, w.1.seq.toNat < 2 ^ 63) :
    orderBySeq (entryRows K ws) = entryRows K ws := by
  apply List.mergeSort_of_pairwise
  rw [entryRows, List.pairwise_map]
  refine (h.increasing hs).1.imp_of_mem fun {w w'} hw hw' hlt => ?_
  have hnum : ∀ w ∈ ws, (entryRow K w.1).seq = w.1.seq.toNat := fun w hw => if_pos (hs w hw)
  rw [decide_eq_true_eq, hnum w hw, hnum w' hw']
  omega

/-- The snapshot of the tables after the entries of a log, its head and a baseline were written. -/
theorem auditSnapshot_commitAll (hR : R.Lawful K) {log : AuditLog}
    {ws : List (AuditEntry × PinnedHead)} {w : AuditEntry × PinnedHead} {b : AuditBaseline}
    {t : AuditTables} (h : Built K log (ws ++ [w])) (hs : ∀ e ∈ log.entries, Storable e)
    (hb : StorableBaseline b) (hc : AuditTables.empty.commitAll K (ws ++ [w]) = .ok t) :
    (t.setAuditBaseline K b).auditSnapshot K R = .ok {
      entries := log.entries.map stored
      pinnedHead := some { w.2 with updatedAt := w.2.updatedAt.atMicros }
      baseline := some (storedBaseline b) } := by
  have hws : ∀ v ∈ ws ++ [w], Storable v.1 := by
    intro v hv
    exact hs v.1 (h.entries ▸ List.mem_map_of_mem hv)
  have hw : Storable w.1 := hws w (List.mem_append_right _ (List.mem_singleton.mpr rfl))
  obtain ⟨hid, hseq, hts⟩ := h.pins w (List.mem_append_right _ (List.mem_singleton.mpr rfl))
  have hentries : (orderBySeq (entryRows K (ws ++ [w]))).mapM
      (fun row => (rowToAuditEntry K R row).mapError AdapterError.toStorage) =
      .ok (log.entries.map stored) := by
    rw [h.orderBySeq_rows fun v hv => (hws v hv).seq, entryRows, List.mapM_map, h.entries,
      List.map_map]
    refine mapM_ok fun v hv => ?_
    rw [Function.comp_apply, rowToAuditEntry_entryRow hR (hws v hv).printable, (hws v hv).reloaded_eq]
    rfl
  have hhead : rowToPinnedHead K R (headRow K w.2) =
      .ok { w.2 with updatedAt := w.2.updatedAt.atMicros } :=
    rowToPinnedHead_headRow hR (hid ▸ hw.id) (hts ▸ hw.ts) (hseq ▸ hw.seq)
  have hbase := rowToAuditBaseline_baselineRow hR hb
  have hlast : ((ws ++ [w]).getLast?.map fun v => headRow K v.2).or AuditTables.empty.pinnedHead =
      some (headRow K w.2) := by simp
  rw [commitAll_ok hc, hlast]
  unfold AuditTables.auditSnapshot AuditTables.setAuditBaseline
  simp only [AuditTables.empty, List.nil_append, hentries, Option.mapM_some, hhead, hbase]
  rfl

/-- The reloaded entry is hashed, linked and tagged as the one in memory. -/
structure SameChain (K : Crates) (e e' : AuditEntry) : Prop where
  canonicalBytes : ∀ p, canonicalBytesForHashing K e' p = canonicalBytesForHashing K e p
  prevHash : e'.prevHash = e.prevHash
  currentHash : e'.currentHash = e.currentHash
  hmac : e'.hmac = e.hmac

/-- **Storage preserves verification.**  The entries of a log are accepted by the tables when their
identifiers and hashes are distinct.  Read back they are the same chain in the same order, and the
verifier gives the same results on them, with the head and a baseline whose numbers fit read back
too. -/
theorem reload_preserves_verification (K : Crates) (R : Readers) (hR : R.Lawful K) {log : AuditLog}
    {ws : List (AuditEntry × PinnedHead)} {e : AuditEntry} {head : PinnedHead}
    (h : Built K log (ws ++ [(e, head)])) (hs : ∀ e ∈ log.entries, Storable e)
    {b : AuditBaseline} (hb : StorableBaseline b) (hseq : b.baselineSeq.toNat < 2 ^ 63)
    (hcount : b.entryCount.toNat < 2 ^ 63) :
    ((∃ t, AuditTables.empty.commitAll K (ws ++ [(e, head)]) = .ok t) ↔
      (log.entries.map AuditEntry.id).Nodup ∧ (log.entries.map AuditEntry.currentHash).Nodup) ∧
    ∀ t, AuditTables.empty.commitAll K (ws ++ [(e, head)]) = .ok t →
      ∃ es head' b', (t.setAuditBaseline K b).auditSnapshot K R = .ok ⟨es, some head', some b'⟩ ∧
        List.Forall₂ (SameChain K) log.entries es ∧
        ∀ hmacKey now,
          verifyFull K (AuditLog.fromPersisted es) head' hmacKey now =
            verifyFull K log head hmacKey now ∧
          (∀ fromId toId, verifyRange K (AuditLog.fromPersisted es) head' fromId toId hmacKey now =
            verifyRange K log head fromId toId hmacKey now) ∧
          verifyFromBaseline K (AuditLog.fromPersisted es) head' b' hmacKey now =
            verifyFromBaseline K log head b hmacKey now := by
  have hnums : ∀ w ∈ ws ++ [(e, head)], w.1.seq.toNat < 2 ^ 63 := by
    intro w hw
    exact (hs w.1 (h.entries ▸ List.mem_map_of_mem hw)).seq
  have hlog : AuditLog.fromPersisted (log.entries.map stored) = storedLog log := by
    have hpers := h.fromPersisted (by simp)
    rw [hpers]
    simp only [AuditLog.fromPersisted, storedLog, List.getLast?_map, Option.map_map]
    rfl
  have hbase : storedBaseline b = { b with createdAt := b.createdAt.atMicros } := by
    unfold storedBaseline
    rw [saturateI64_of_lt hseq, saturateI64_of_lt hcount]
  constructor
  · have hiff : (∃ t, AuditTables.empty.commitAll K (ws ++ [(e, head)]) = .ok t) ↔
        (entryRows K (ws ++ [(e, head)])).Pairwise Apart := exists_commitAll_iff List.Pairwise.nil
    rw [hiff]
    exact h.rows_apart hnums
  · intro t ht
    refine ⟨_, _, _, auditSnapshot_commitAll hR h hs hb ht, ?_, ?_⟩
    · rw [List.forall₂_map_right_iff, List.forall₂_same]
      intro e' _
      exact ⟨canonicalBytes_stored hR e', rfl, rfl, rfl⟩
    · intro hmacKey now
      rw [hlog, hbase]
      exact ⟨verifyRange_stored hR log head _ none none hmacKey now,
        fun fromId toId => verifyRange_stored hR log head _ fromId toId hmacKey now,
        verifyFromBaseline_stored hR log head b _ _ hmacKey now⟩

end Reload

/-! ### One entry, and two baselines -/

theorem atMicros_congr {a b : Rfc3339Timestamp} (h : a.micros = b.micros) :
    a.atMicros = b.atMicros := by
  obtain ⟨hsecs, hsub⟩ := Prod.ext_iff.mp h
  simp only [Rfc3339Timestamp.micros] at hsecs hsub
  simp only [Rfc3339Timestamp.atMicros, hsecs, hsub]

/-- The readers that undo the printers. -/
noncomputable def Readers.inverse (K : Crates) : Readers where
  parseUuid s := open Classical in if h : ∃ u, K.hyphenated u = s then some h.choose else none
  parseRfc3339 s :=
    open Classical in if h : ∃ t, K.toRfc3339 t = s then some h.choose.atMicros else none

theorem Readers.inverse_lawful {K : Crates}
    (hK : ∀ a b, a.micros = b.micros → K.toRfc3339 a = K.toRfc3339 b) :
    (Readers.inverse K).Lawful K where
  parseUuid_hyphenated := by
    intro u
    have h : ∃ v, K.hyphenated v = K.hyphenated u := ⟨u, rfl⟩
    unfold Readers.inverse
    simp only [dif_pos h]
    rw [K.hyphenated_injective h.choose_spec]
  parseRfc3339_toRfc3339 := by
    intro t _
    have h : ∃ u, K.toRfc3339 u = K.toRfc3339 t := ⟨t, rfl⟩
    unfold Readers.inverse
    simp only [dif_pos h]
    rw [atMicros_congr (K.micros_of_toRfc3339 _ _ h.choose_spec)]
  toRfc3339_micros := hK

theorem Readers.inverse_ofHash_lawful (hash : List UInt8 → Blake3Hash)
    (keyedHash : Key → List UInt8 → HmacSignature) :
    (Readers.inverse (Crates.ofHash hash keyedHash)).Lawful (Crates.ofHash hash keyedHash) := by
  apply Readers.inverse_lawful
  intro a b h
  obtain ⟨hsecs, hsub⟩ := Prod.ext_iff.mp h
  simp only [Rfc3339Timestamp.micros] at hsecs hsub
  show String.ofList (epochText a) = String.ofList (epochText b)
  unfold epochText signChar
  rw [h, hsecs, hsub]

/-- A tag that shows the last byte of its input. -/
def lastByteCrates : Crates :=
  Crates.ofHash twoDigests fun _ bs => ⟨Vector.replicate 32 (bs.getLast?.getD 0)⟩

theorem lastByte_lawful : (Readers.inverse lastByteCrates).Lawful lastByteCrates :=
  Readers.inverse_ofHash_lawful _ _

theorem fourDigitYear_epoch : FourDigitYear epoch := ⟨by decide, by decide⟩

/-- An append whose ids are of version 7. -/
def versionSevenCall : Call where
  params := { op := .unseal, outcome := .allow, namespaceId := ⟨Vector.replicate 16 0x70⟩ }
  draw := ⟨⟨Vector.replicate 16 0x70⟩, epoch⟩

/-- The log after one append. -/
structure OneEntry (log : AuditLog) (e : AuditEntry) (head : PinnedHead) : Prop where
  built : Built lastByteCrates log [(e, head)]
  entries : log.entries = [e]
  storable : Storable e
  authentic : Authentic lastByteCrates sampleKey [e] head

theorem exists_oneEntry : ∃ log e head, OneEntry log e head := by
  obtain ⟨log, e, head, ha⟩ := exists_append lastByteCrates AuditLog.new versionSevenCall.params
    sampleKey versionSevenCall.draw
  have hb : Built lastByteCrates log ([] ++ [(e, head)]) := .append .new ha
  have hw := Written.start.append ha
  obtain ⟨h, hh, hauth⟩ := hw.authentic (by simp) (by simp)
  obtain rfl := Option.some.inj hh
  obtain ⟨key, -, happ⟩ := append_ok ha
  have hpart := happ.part_eq
  have hid : e.id = versionSevenCall.draw.id := congrArg AuditEntry.id hpart
  have hns : e.namespaceId = versionSevenCall.params.namespaceId :=
    congrArg AuditEntry.namespaceId hpart
  have hts : e.ts = epoch := congrArg AuditEntry.ts hpart
  have hseq : e.seq = 0 := congrArg AuditEntry.seq hpart
  refine ⟨log, e, head, hb, hb.entries, ⟨?_, ?_, ?_, ?_⟩, hauth⟩
  · rw [hid]
    decide
  · rw [hns]
    decide
  · rw [hts]
    exact fourDigitYear_epoch
  · rw [hseq]
    decide

theorem computeMac_lastByte (b : AuditBaseline) : b.computeMac lastByteCrates sampleKey =
    ⟨Vector.replicate 32 ((toLeBytes b.entryCount).getLast?.getD 0)⟩ := by
  have hlast : b.macInput.getLast?.getD 0 = (toLeBytes b.entryCount).getLast?.getD 0 := by
    have hne : toLeBytes b.entryCount ≠ [] := by simp [toLeBytes]
    unfold AuditBaseline.macInput
    rw [List.getLast?_append, List.getLast?_eq_some_getLast hne]
    rfl
  exact congrArg (fun x => HmacSignature.mk (Vector.replicate 32 x)) hlast

/-- A baseline at an entry, tagged. -/
def sampleBaseline (e : AuditEntry) (entryCount : UInt64) : AuditBaseline :=
  (AuditBaseline.new e.seq e.id e.currentHash entryCount "key rotation" epoch).withMac lastByteCrates
    sampleKey

theorem OneEntry.baseline {log : AuditLog} {e : AuditEntry} {head : PinnedHead}
    (h : OneEntry log e head) (entryCount : UInt64) :
    StorableBaseline (sampleBaseline e entryCount) ∧
    (verifyFromBaseline lastByteCrates log head (sampleBaseline e entryCount) sampleKey.toList
      epoch).outcome = .intact := by
  refine ⟨⟨h.storable.id, fourDigitYear_epoch⟩, ?_⟩
  have hlen : log.entries.length < 2 ^ 64 := by
    rw [h.entries]
    simp
  refine (verifyFromBaseline_of_evidence epoch hlen ?_).1
  rw [h.entries]
  exact evidence_of_authentic h.authentic ((AuditBaseline.verifyMac_iff lastByteCrates).mpr rfl)
    ⟨e, List.mem_singleton.mpr rfl, rfl, rfl⟩

theorem one_commit_succeeds (e : AuditEntry) (head : PinnedHead) :
    ∃ t, AuditTables.empty.commitAll lastByteCrates ([] ++ [(e, head)]) = .ok t := by
  refine (exists_commitAll_iff List.Pairwise.nil).mpr ?_
  exact List.pairwise_singleton _ _

theorem one_entry_log_reloads : ∃ log e head t es head' b',
    Built lastByteCrates log ([] ++ [(e, head)]) ∧
    AuditTables.empty.commitAll lastByteCrates ([] ++ [(e, head)]) = .ok t ∧
    (t.setAuditBaseline lastByteCrates (sampleBaseline e 1)).auditSnapshot lastByteCrates
      (Readers.inverse lastByteCrates) = .ok ⟨es, some head', some b'⟩ ∧
    (verifyFromBaseline lastByteCrates (AuditLog.fromPersisted es) head' b' sampleKey.toList
      epoch).outcome = .intact := by
  obtain ⟨log, e, head, h⟩ := exists_oneEntry
  obtain ⟨hb, hintact⟩ := h.baseline 1
  obtain ⟨t, ht⟩ := one_commit_succeeds e head
  have hs : ∀ e' ∈ log.entries, Storable e' := by
    rw [h.entries]
    intro e' he'
    rw [List.mem_singleton.mp he']
    exact h.storable
  have hcount : (sampleBaseline e 1).entryCount.toNat < 2 ^ 63 := by
    show (1 : UInt64).toNat < 2 ^ 63
    decide
  obtain ⟨es, head', b', hsnap, -, hsame⟩ := (reload_preserves_verification lastByteCrates
    (Readers.inverse lastByteCrates) lastByte_lawful h.built hs hb h.storable.seq hcount).2 t ht
  refine ⟨log, e, head, t, es, head', b', h.built, ht, hsnap, ?_⟩
  rw [(hsame sampleKey.toList epoch).2.2]
  exact hintact

/-- A baseline that counts `2 ^ 63` entries is authentic in memory and rejected after a reload: the
column saturates the count that its tag covers. -/
theorem wide_baseline_rejected : ∃ log e head t es head' b',
    Built lastByteCrates log ([] ++ [(e, head)]) ∧ (∀ e' ∈ log.entries, Storable e') ∧
    AuditTables.empty.commitAll lastByteCrates ([] ++ [(e, head)]) = .ok t ∧
    (t.setAuditBaseline lastByteCrates (sampleBaseline e 9223372036854775808)).auditSnapshot
      lastByteCrates (Readers.inverse lastByteCrates) = .ok ⟨es, some head', some b'⟩ ∧
    (verifyFromBaseline lastByteCrates log head (sampleBaseline e 9223372036854775808)
      sampleKey.toList epoch).outcome = .intact ∧
    (verifyFromBaseline lastByteCrates (AuditLog.fromPersisted es) head' b' sampleKey.toList
      epoch).outcome = .baselineMacMismatch e.id := by
  obtain ⟨log, e, head, h⟩ := exists_oneEntry
  obtain ⟨hb, hintact⟩ := h.baseline 9223372036854775808
  obtain ⟨t, ht⟩ := one_commit_succeeds e head
  have hs : ∀ e' ∈ log.entries, Storable e' := by
    rw [h.entries]
    intro e' he'
    rw [List.mem_singleton.mp he']
    exact h.storable
  refine ⟨log, e, head, t, _, _, _, h.built, hs, ht,
    auditSnapshot_commitAll lastByte_lawful h.built hs hb ht, hintact, ?_⟩
  have hmac : (storedBaseline (sampleBaseline e 9223372036854775808)).verifyMac lastByteCrates
      sampleKey = false := by
    rw [← Bool.not_eq_true, AuditBaseline.verifyMac_iff]
    intro heq
    have htag : (sampleBaseline e 9223372036854775808).hmac = _ := rfl
    have hsame := Option.some.inj (htag.symm.trans heq)
    rw [computeMac_lastByte, computeMac_lastByte] at hsame
    have hbytes : HmacSignature.mk (Vector.replicate 32
        ((toLeBytes 9223372036854775808).getLast?.getD 0)) ≠ HmacSignature.mk (Vector.replicate 32
        ((toLeBytes (saturateI64 9223372036854775808)).getLast?.getD 0)) := by decide
    exact hbytes hsame
  simp only [verifyFromBaseline, keyOfSlice_toList, hmac, Bool.not_false, if_true]
  rfl

end MerkleVault.Sqlite.AuditRows
