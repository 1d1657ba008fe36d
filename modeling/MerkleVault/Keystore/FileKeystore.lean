import MerkleVault.Lib.Base64
import MerkleVault.Lib.Formats
import MerkleVault.App.Context
import Mathlib

/-! # The File Keystore

`FileKeystoreAdapter` keeps secrets by service and account in one encrypted JSON file.  Every
mutation changes the map in memory, then an index of accounts that the map holds under a reserved
name, and then writes the whole map: into a temporary file that is renamed into place, so the file is
the old one or the new one.  A write that fails leaves the map in memory changed.

* `load_persisted`: a file that was written is read back to the map that was written;
* `Refines.step`: one operation keeps the map, the index and the file in step;
* `keystore_refines_durable_map`: a run is that of a durable map exactly when no write fails after
  the map was changed. -/

namespace MerkleVault.Keystore.FileKeystore

open MerkleVault.Lib MerkleVault.Lib.Formats
open MerkleVault.App.Context (KeychainError)

/-! ### The crates -/

/-- Service and account. -/
abbrev StoreKey := String × String

/-- The map in memory. -/
abbrev Entries := AList fun _ : StoreKey => List UInt8

/-- The map in the file: accounts by service, secrets in Base64. -/
abbrev Snapshot := AList fun _ : String => AList fun _ : String => String

/-- The JSON values that the index is read as. -/
inductive JsonValue
  | array (values : List JsonValue)
  | string (s : String)
  | other

/-- The encoders and decoders that the adapter uses. -/
structure Codecs where
  base64Encode : List UInt8 → String
  base64Decode : String → Except String (List UInt8)
  /-- `serde_json::to_vec` and `from_slice` on snapshots. -/
  snapshotToVec : Snapshot → Except String (List UInt8)
  snapshotFromSlice : List UInt8 → Except String Snapshot
  /-- `serde_json::to_vec` on a list of texts, and `from_slice` into a value. -/
  indexToVec : List String → Except String (List UInt8)
  valueFromSlice : List UInt8 → Except String JsonValue
  /-- Encryption under a passphrase, by the random choices it makes. -/
  ageEncrypt : Nat → String → List UInt8 → List UInt8
  ageDecrypt : String → List UInt8 → Except KeychainError (List UInt8)

/-- The secret of a service and an account in a snapshot. -/
def find (nested : Snapshot) (service account : String) : Option String :=
  (nested.lookup service).bind fun accounts => accounts.lookup account

/-- Maps and lists of texts have a JSON text, and the decoders invert the encoders, JSON maps up to
order. -/
structure Codecs.Lawful (C : Codecs) : Prop where
  base64 : ∀ secret, C.base64Decode (C.base64Encode secret) = .ok secret
  snapshot : ∀ nested, ∃ bytes nested', C.snapshotToVec nested = .ok bytes ∧
    C.snapshotFromSlice bytes = .ok nested' ∧
      ∀ service account, find nested' service account = find nested service account
  index : ∀ accounts, ∃ bytes, C.indexToVec accounts = .ok bytes ∧ bytes ≠ [] ∧
    C.valueFromSlice bytes = .ok (.array (accounts.map .string))
  age : ∀ seed passphrase plaintext,
    C.ageDecrypt passphrase (C.ageEncrypt seed passphrase plaintext) = .ok plaintext

variable (C : Codecs)

/-! ### The account index -/

/-- `INDEX_SUFFIX`. -/
def indexSuffix : String := "__merkle_account_index"

/-- `sentinel_account`: the name under which a service's index is kept. -/
def sentinelAccount (service : String) : String := service ++ indexSuffix

/-- `account.ends_with(INDEX_SUFFIX)`. -/
def isReserved (account : String) : Bool := indexSuffix.toList.isSuffixOf account.toList

/-- The accounts of an index, all of them texts. -/
def indexStrings : List JsonValue → Except KeychainError (List String)
  | [] => .ok []
  | .string s :: rest =>
    match indexStrings rest with
    | .error e => .error e
    | .ok accounts => .ok (s :: accounts)
  | _ :: _ => .error (.backend "index entry not a string")

/-- `decode_index`: no bytes are an empty index. -/
def decodeIndex (raw : List UInt8) : Except KeychainError (List String) :=
  if raw.isEmpty then .ok [] else
  match C.valueFromSlice raw with
  | .error e => .error (.backend ("index decode: " ++ e))
  | .ok (.array values) => indexStrings values
  | .ok _ => .error (.backend "index not a JSON array")

/-- `encode_index`. -/
def encodeIndex (accounts : List String) : Except KeychainError (List UInt8) :=
  (C.indexToVec accounts).mapError fun e => .backend ("index encode: " ++ e)

/-- Whether the list changed, and the list. -/
def indexAdd (account : String) (current : List String) : Bool × List String :=
  if current.any fun a => a = account then (false, current) else (true, current ++ [account])

/-- `index_remove`: whether the list changed, and the list. -/
def indexRemove (account : String) (current : List String) : Bool × List String :=
  let kept := current.filter fun a => a ≠ account
  (kept.length ≠ current.length, kept)

/-! ### The adapter -/

/-- The map in memory and the contents of the file, when there is one. -/
structure FileKeystoreAdapter where
  inner : Entries
  file : Option (List UInt8)

/-- Where a write of the file fails, with the path and the detail. -/
inductive Fault
  | ageEncrypt (step detail : String)
  | createDirectory (path detail : String)
  | createTmp (path detail : String)
  | writeTmp (path detail : String)
  | setTmpPerms (path detail : String)
  | rename (path detail : String)
  | join (detail : String)

/-- The error that a failing step returns. -/
def Fault.error : Fault → KeychainError
  | .ageEncrypt step detail => .backend ("age " ++ step ++ ": " ++ detail)
  | .createDirectory path detail => .backend ("create keystore directory " ++ path ++ ": " ++ detail)
  | .createTmp path detail => .backend ("create tmp " ++ path ++ ": " ++ detail)
  | .writeTmp path detail => .backend ("write tmp " ++ path ++ ": " ++ detail)
  | .setTmpPerms path detail => .backend ("set tmp perms " ++ path ++ ": " ++ detail)
  | .rename path detail => .backend ("rename tmp → keystore " ++ path ++ ": " ++ detail)
  | .join detail => .backend ("spawn_blocking join (persist): " ++ detail)

/-- How one write of the file goes: the choices of the encryption, and where it fails. -/
structure Io where
  seed : Nat
  fault : Option Fault

/-- A secret's text under its service and account. -/
def insertNested (nested : Snapshot) (service account text : String) : Snapshot :=
  nested.insert service (((nested.lookup service).getD ∅).insert account text)

/-- The nested map that `persist` rebuilds. -/
def nest (m : Entries) : Snapshot :=
  m.entries.foldl (fun nested e => insertNested nested e.1.1 e.1.2 (C.base64Encode e.2)) ∅

/-- `persist`: the file is replaced at once or not at all. -/
def persist (passphrase : String) (io : Io) (m : Entries) (file : Option (List UInt8)) :
    Except KeychainError Unit × Option (List UInt8) :=
  match C.snapshotToVec (nest C m) with
  | .error e => (.error (.backend ("serialize snapshot: " ++ e)), file)
  | .ok plaintext =>
    match io.fault with
    | some fault => (.error fault.error, file)
    | none => (.ok (), some (C.ageEncrypt io.seed passphrase plaintext))

/-- One account into the flat map. -/
def flattenAccount (service : String) (flat : Entries) (e : Sigma fun _ : String => String) :
    Except KeychainError Entries :=
  match C.base64Decode e.2 with
  | .error detail => .error (.backend ("base64 decode for (" ++ service ++ ", " ++ e.1 ++ "): " ++ detail))
  | .ok secret => .ok (flat.insert (service, e.1) secret)

/-- The accounts of one service. -/
def flattenService (flat : Entries) (e : Sigma fun _ : String => AList fun _ : String => String) :
    Except KeychainError Entries :=
  e.2.entries.foldlM (flattenAccount C e.1) flat

/-- The map of an encrypted file. -/
def loadSnapshot (passphrase : String) (ciphertext : List UInt8) : Except KeychainError Entries :=
  match C.ageDecrypt passphrase ciphertext with
  | .error e => .error e
  | .ok plaintext =>
    match C.snapshotFromSlice plaintext with
    | .error e => .error (.backend ("parse keystore JSON: " ++ e))
    | .ok nested => nested.entries.foldlM (flattenService C) ∅

/-- `FileKeystoreAdapter::open`; the read may fail. -/
def openFile (passphrase : String) (fault : Option String) :
    Option (List UInt8) → Except KeychainError Entries
  | none => .ok ∅
  | some ciphertext =>
    match fault with
    | some detail => .error (.backend detail)
    | none => loadSnapshot C passphrase ciphertext

/-- The index of the service, changed; the accounts under the reserved suffix are not indexed. -/
def indexed (change : List String → Bool × List String) (service account : String) (m : Entries) :
    Except KeychainError Entries :=
  if isReserved account then .ok m else
  match decodeIndex C ((m.lookup (service, sentinelAccount service)).getD []) with
  | .error e => .error e
  | .ok current =>
    match change current with
    | (false, _) => .ok m
    | (true, accounts) =>
      match encodeIndex C accounts with
      | .error e => .error e
      | .ok encoded => .ok (m.insert (service, sentinelAccount service) encoded)

/-- The rest of a mutation, once the entry itself is changed in memory. -/
def commit (passphrase : String) (io : Io) (m : Entries) (file : Option (List UInt8)) :
    Except KeychainError Entries → Except KeychainError Unit × FileKeystoreAdapter
  | .error e => (.error e, ⟨m, file⟩)
  | .ok m' => ((persist C passphrase io m' file).1, ⟨m', (persist C passphrase io m' file).2⟩)

/-- The map that a store writes. -/
def storedMap (service account : String) (secret : List UInt8) (m : Entries) :
    Except KeychainError Entries :=
  indexed C (indexAdd account) service account (m.insert (service, account) secret)

/-- `store`. -/
def store (passphrase : String) (io : Io) (service account : String) (secret : List UInt8)
    (st : FileKeystoreAdapter) : Except KeychainError Unit × FileKeystoreAdapter :=
  commit C passphrase io (st.inner.insert (service, account) secret) st.file
    (storedMap C service account secret st.inner)

/-- The map that a delete writes. -/
def deletedMap (service account : String) (m : Entries) : Except KeychainError Entries :=
  indexed C (indexRemove account) service account (m.erase (service, account))

/-- `delete`: an account that is not there is refused. -/
def delete (passphrase : String) (io : Io) (service account : String) (st : FileKeystoreAdapter) :
    Except KeychainError Unit × FileKeystoreAdapter :=
  if (st.inner.lookup (service, account)).isNone then (.error .notFound, st)
  else commit C passphrase io (st.inner.erase (service, account)) st.file
    (deletedMap C service account st.inner)

/-- `retrieve`. -/
def retrieve (service account : String) (st : FileKeystoreAdapter) : Except KeychainError (List UInt8) :=
  match st.inner.lookup (service, account) with
  | some secret => .ok secret
  | none => .error .notFound

/-- `list`, off the index. -/
def list (service : String) (st : FileKeystoreAdapter) : Except KeychainError (List String) :=
  decodeIndex C ((st.inner.lookup (service, sentinelAccount service)).getD [])

/-- The adapter opens the file again; when it cannot, the one that runs stays. -/
def reopen (passphrase : String) (fault : Option String) (st : FileKeystoreAdapter) :
    Except KeychainError Unit × FileKeystoreAdapter :=
  match openFile C passphrase fault st.file with
  | .error e => (.error e, st)
  | .ok m => (.ok (), { st with inner := m })

/-! ### Calls -/

/-- The calls of the adapter, with what the file system does to each. -/
inductive Call
  | store (service account : String) (secret : List UInt8) (io : Io)
  | delete (service account : String) (io : Io)
  | retrieve (service account : String)
  | list (service : String)
  /-- The agent starts again and opens the file. -/
  | reopen (fault : Option String)

/-- What a call returns. -/
inductive Reply
  | done
  | secret (bytes : List UInt8)
  | accounts (names : List String)

/-- What a call returns, and the adapter after it. -/
def Call.apply (passphrase : String) (st : FileKeystoreAdapter) :
    Call → Except KeychainError Reply × FileKeystoreAdapter
  | .store service account secret io =>
    let (r, st') := FileKeystore.store C passphrase io service account secret st
    (r.map fun _ => .done, st')
  | .delete service account io =>
    let (r, st') := FileKeystore.delete C passphrase io service account st
    (r.map fun _ => .done, st')
  | .retrieve service account => ((FileKeystore.retrieve service account st).map .secret, st)
  | .list service => ((FileKeystore.list C service st).map .accounts, st)
  | .reopen fault =>
    let (r, st') := FileKeystore.reopen C passphrase fault st
    (r.map fun _ => .done, st')

variable {C}

/-! ### A file that was written is read back -/

theorem find_insertNested (nested : Snapshot) (service account text s a : String) :
    find (insertNested nested service account text) s a =
      if (s, a) = (service, account) then some text else find nested s a := by
  unfold find insertNested
  by_cases hs : s = service
  · subst hs
    rw [AList.lookup_insert, Option.bind_some]
    by_cases ha : a = account
    · subst ha
      rw [AList.lookup_insert, if_pos rfl]
    · have hne : (s, a) ≠ (s, account) := fun h => ha (Prod.mk.inj h).2
      rw [AList.lookup_insert_ne ha, if_neg hne]
      cases nested.lookup s with
      | none => simp
      | some accounts => rfl
  · have hne : (s, a) ≠ (service, account) := fun h => hs (Prod.mk.inj h).1
    rw [AList.lookup_insert_ne hs, if_neg hne]

theorem find_foldl : ∀ {es : List (Sigma fun _ : StoreKey => List UInt8)} (nested : Snapshot)
    (s a : String), es.NodupKeys →
    find (es.foldl (fun nested e => insertNested nested e.1.1 e.1.2 (C.base64Encode e.2)) nested) s a =
      ((es.dlookup (s, a)).map C.base64Encode).or (find nested s a)
  | [], _, _, _, _ => rfl
  | ⟨(service, account), secret⟩ :: es, nested, s, a, hnd => by
    obtain ⟨hnot, hnd⟩ := List.nodupKeys_cons.mp hnd
    rw [List.foldl_cons, find_foldl _ s a hnd, find_insertNested]
    by_cases hk : (s, a) = (service, account)
    · rw [hk, List.dlookup_cons_eq, List.dlookup_eq_none.mpr hnot, if_pos rfl]
      rfl
    · rw [List.dlookup_cons_ne _ _ hk, if_neg hk]

/-- The nested map holds the encoded entries. -/
theorem find_nest (m : Entries) (s a : String) :
    find (nest C m) s a = (m.lookup (s, a)).map C.base64Encode := by
  unfold nest
  rw [find_foldl ∅ s a m.nodupKeys]
  show (Option.map _ (m.lookup (s, a))).or none = _
  rw [Option.or_none]

/-- A text as it is decoded. -/
def decoded (C : Codecs) (text : String) : List UInt8 := (C.base64Decode text).toOption.getD []

theorem flattenAccounts_ok (service : String) : ∀ {es : List (Sigma fun _ : String => String)}
    (flat : Entries), es.NodupKeys → (∀ e ∈ es, C.base64Decode e.2 = .ok (decoded C e.2)) →
    ∃ flat', es.foldlM (flattenAccount C service) flat = .ok flat' ∧ ∀ s a, flat'.lookup (s, a) =
      (if s = service then (es.dlookup a).map (decoded C) else none).or (flat.lookup (s, a))
  | [], flat, _, _ => ⟨flat, rfl, fun s a => by
      rw [List.dlookup_nil]
      simp⟩
  | ⟨account, text⟩ :: es, flat, hnd, hdec => by
    obtain ⟨hnot, hnd⟩ := List.nodupKeys_cons.mp hnd
    obtain ⟨htext, hdec⟩ := List.forall_mem_cons.mp hdec
    obtain ⟨flat', hflat', hlook⟩ :=
      flattenAccounts_ok service (flat.insert (service, account) (decoded C text)) hnd hdec
    refine ⟨flat', ?_, fun s a => ?_⟩
    · rw [List.foldlM_cons]
      unfold flattenAccount
      rw [htext]
      exact hflat'
    · rw [hlook s a]
      by_cases hk : (s, a) = (service, account)
      · obtain ⟨rfl, rfl⟩ := Prod.mk.inj hk
        rw [List.dlookup_cons_eq, List.dlookup_eq_none.mpr hnot, AList.lookup_insert]
        simp
      · rw [AList.lookup_insert_ne hk]
        by_cases hs : s = service
        · subst hs
          have ha : a ≠ account := fun h => hk (by rw [h])
          rw [List.dlookup_cons_ne _ _ ha]
        · rw [if_neg hs, if_neg hs]

theorem flattenServices_ok : ∀ {es : List (Sigma fun _ : String => AList fun _ : String => String)}
    (flat : Entries), es.NodupKeys →
    (∀ e ∈ es, ∀ f ∈ e.2.entries, C.base64Decode f.2 = .ok (decoded C f.2)) →
    ∃ flat', es.foldlM (flattenService C) flat = .ok flat' ∧ ∀ s a, flat'.lookup (s, a) =
      (((es.dlookup s).bind fun accounts => accounts.lookup a).map (decoded C)).or
        (flat.lookup (s, a))
  | [], flat, _, _ => ⟨flat, rfl, fun _ _ => rfl⟩
  | ⟨service, accounts⟩ :: es, flat, hnd, hdec => by
    obtain ⟨hnot, hnd⟩ := List.nodupKeys_cons.mp hnd
    obtain ⟨hacc, hdec⟩ := List.forall_mem_cons.mp hdec
    obtain ⟨flat₁, hflat₁, hlook₁⟩ :=
      flattenAccounts_ok service flat accounts.nodupKeys hacc
    obtain ⟨flat', hflat', hlook⟩ := flattenServices_ok flat₁ hnd hdec
    refine ⟨flat', ?_, fun s a => ?_⟩
    · rw [List.foldlM_cons]
      unfold flattenService
      rw [hflat₁]
      exact hflat'
    · rw [hlook s a, hlook₁ s a]
      by_cases hs : s = service
      · subst hs
        rw [List.dlookup_cons_eq, List.dlookup_eq_none.mpr hnot, if_pos rfl]
        rfl
      · rw [List.dlookup_cons_ne _ _ hs, if_neg hs]
        rfl

/-- Every text of a snapshot is found under its service and account. -/
theorem find_of_mem {nested : Snapshot} {e : Sigma fun _ : String => AList fun _ : String => String}
    (he : e ∈ nested.entries) {f : Sigma fun _ : String => String} (hf : f ∈ e.2.entries) :
    find nested e.1 f.1 = some f.2 := by
  unfold find
  rw [AList.mem_lookup_iff.mpr he, Option.bind_some]
  exact AList.mem_lookup_iff.mpr hf

/-- **A file that was written is read back** to the map that was written. -/
theorem load_persisted (hC : C.Lawful) (passphrase : String) {io : Io} (hio : io.fault = none)
    (m : Entries) (file : Option (List UInt8)) :
    ∃ ciphertext m', persist C passphrase io m file = (.ok (), some ciphertext) ∧
      loadSnapshot C passphrase ciphertext = .ok m' ∧ ∀ k, m'.lookup k = m.lookup k := by
  obtain ⟨plaintext, nested, hplain, hnested, hfind⟩ := hC.snapshot (nest C m)
  have hentry : ∀ s a, find nested s a = (m.lookup (s, a)).map C.base64Encode := fun s a =>
    (hfind s a).trans (find_nest m s a)
  have hdec : ∀ secret, decoded C (C.base64Encode secret) = secret := by
    intro secret
    unfold decoded
    rw [hC.base64]
    rfl
  obtain ⟨m', hm', hlook⟩ := flattenServices_ok (C := C) ∅ nested.nodupKeys (by
    intro e he f hf
    obtain ⟨secret, -, hsecret⟩ :=
      Option.map_eq_some_iff.mp ((hentry e.1 f.1).symm.trans (find_of_mem he hf))
    rw [← hsecret, hdec, hC.base64])
  refine ⟨C.ageEncrypt io.seed passphrase plaintext, m', ?_, ?_, ?_⟩
  · unfold persist
    simp only [hplain, hio]
  · unfold loadSnapshot
    simp only [hC.age, hnested]
    exact hm'
  · rintro ⟨s, a⟩
    rw [hlook s a]
    show (Option.map _ (find nested s a)).or none = _
    rw [Option.or_none, hentry s a, Option.map_map]
    have hid : decoded C ∘ C.base64Encode = id := funext hdec
    rw [hid, Option.map_id_apply]

/-! ### The durable map -/

/-- What the map holds after a call: the last secret stored with success and not deleted since. -/
def record (stored : StoreKey → Option (List UInt8)) :
    Call → Except KeychainError Reply → StoreKey → Option (List UInt8)
  | .store service account secret _, .ok _ =>
    Function.update stored (service, account) (some secret)
  | .delete service account _, .ok _ => Function.update stored (service, account) none
  | _, _ => stored

/-- One call of a run, with what the map holds after it. -/
structure Visit where
  before : FileKeystoreAdapter
  call : Call
  result : Except KeychainError Reply
  after : FileKeystoreAdapter
  stored : StoreKey → Option (List UInt8)

/-- One call, with what was there before and what it left. -/
def Call.visit (C : Codecs) (passphrase : String) (st : FileKeystoreAdapter)
    (stored : StoreKey → Option (List UInt8)) (call : Call) : Visit where
  before := st
  call := call
  result := (call.apply C passphrase st).1
  after := (call.apply C passphrase st).2
  stored := record stored call (call.apply C passphrase st).1

/-- The calls of a run, one after the other. -/
def visits (C : Codecs) (passphrase : String) :
    List Call → FileKeystoreAdapter → (StoreKey → Option (List UInt8)) → List Visit
  | [], _, _ => []
  | call :: calls, st, stored =>
    let v := call.visit C passphrase st stored
    v :: visits C passphrase calls v.after v.stored

/-- The file is read to the map in memory. -/
def Synced (C : Codecs) (passphrase : String) (st : FileKeystoreAdapter) : Prop :=
  ∃ m, openFile C passphrase none st.file = .ok m ∧ ∀ k, m.lookup k = st.inner.lookup k

/-- What the adapter returns is what the map holds. -/
structure Answers (C : Codecs) (stored : StoreKey → Option (List UInt8))
    (st : FileKeystoreAdapter) : Prop where
  retrieves : ∀ service account, isReserved account = false →
    retrieve service account st = match stored (service, account) with
      | some secret => .ok secret
      | none => .error .notFound
  lists : ∀ service, ∃ accounts, list C service st = .ok accounts ∧ accounts.Nodup ∧
    ∀ account, account ∈ accounts ↔ (stored (service, account)).isSome

/-- A call that a durable map could have answered so. -/
structure Visit.Good (C : Codecs) (passphrase : String) (v : Visit) : Prop where
  synced : Synced C passphrase v.after
  unchanged : ∀ e, v.result = .error e → v.after.file = v.before.file ∧
    ∀ k, v.after.inner.lookup k = v.before.inner.lookup k
  answers : Answers C v.stored v.after

/-- The write of the file succeeds, or it writes what was there. -/
def Call.Harmless (st : FileKeystoreAdapter) : Call → Prop
  | .store service account secret io =>
    io.fault = none ∨ st.inner.lookup (service, account) = some secret
  | .delete service account io => io.fault = none ∨ st.inner.lookup (service, account) = none
  | _ => True

/-- No call stores or deletes an account with the reserved suffix. -/
def Call.Regular : Call → Prop
  | .store _ account _ _ => isReserved account = false
  | .delete _ account _ => isReserved account = false
  | _ => True

/-! ### The index -/

/-- The accounts of a service, as the index in the map has them. -/
def indexOf (C : Codecs) (service : String) (m : Entries) : Except KeychainError (List String) :=
  decodeIndex C ((m.lookup (service, sentinelAccount service)).getD [])

theorem isReserved_sentinelAccount (service : String) :
    isReserved (sentinelAccount service) = true := by
  unfold isReserved sentinelAccount
  rw [String.toList_append, List.isSuffixOf_iff_suffix]
  exact List.suffix_append _ _

theorem ne_sentinel {account : String} (h : isReserved account = false) (service : String) :
    account ≠ sentinelAccount service := by
  rintro rfl
  rw [isReserved_sentinelAccount] at h
  cases h

theorem indexStrings_map (accounts : List String) :
    indexStrings (accounts.map .string) = .ok accounts := by
  induction accounts with
  | nil => rfl
  | cons account accounts ih =>
    rw [List.map_cons]
    unfold indexStrings
    rw [ih]

/-- An index that was written is read back. -/
theorem decodeIndex_encoded (hC : C.Lawful) (accounts : List String) :
    ∃ encoded, encodeIndex C accounts = .ok encoded ∧ decodeIndex C encoded = .ok accounts := by
  obtain ⟨bytes, hbytes, hne, hvalue⟩ := hC.index accounts
  refine ⟨bytes, ?_, ?_⟩
  · unfold encodeIndex
    rw [hbytes]
    rfl
  · unfold decodeIndex
    rw [if_neg (by simpa using hne), hvalue]
    exact indexStrings_map accounts

/-- The new index is in the map, and nothing else changes. -/
theorem indexed_ok (hC : C.Lawful) {change : List String → Bool × List String}
    (hsame : ∀ l, (change l).1 = false → (change l).2 = l) {service account : String}
    (hacc : isReserved account = false) {m : Entries} {current : List String}
    (hcur : indexOf C service m = .ok current) :
    ∃ m', indexed C change service account m = .ok m' ∧
      indexOf C service m' = .ok (change current).2 ∧
      (∀ k, k ≠ (service, sentinelAccount service) → m'.lookup k = m.lookup k) ∧
      ((change current).1 = false → m' = m) := by
  unfold indexed
  rw [if_neg (by simp [hacc])]
  unfold indexOf at hcur
  rcases hch : change current with ⟨_ | _, accounts⟩
  · have hkeep : accounts = current := by simpa [hch] using hsame current (by rw [hch])
    subst hkeep
    simp only [hcur, hch]
    exact ⟨m, rfl, hcur, fun _ _ => rfl, fun _ => rfl⟩
  · obtain ⟨encoded, henc, hdec⟩ := decodeIndex_encoded hC accounts
    simp only [hcur, hch, henc]
    refine ⟨_, rfl, ?_, fun k hk => AList.lookup_insert_ne hk, fun h => nomatch h⟩
    unfold indexOf
    rw [AList.lookup_insert]
    exact hdec

theorem indexAdd_same (account : String) (l : List String) (h : (indexAdd account l).1 = false) :
    (indexAdd account l).2 = l := by
  unfold indexAdd at h ⊢
  by_cases hmem : (l.any fun a => decide (a = account)) = true
  · rw [if_pos hmem]
  · rw [if_neg hmem] at h
    cases h

theorem mem_indexAdd (account a : String) (l : List String) :
    a ∈ (indexAdd account l).2 ↔ a = account ∨ a ∈ l := by
  unfold indexAdd
  split
  next h =>
    have hmem : account ∈ l := by simpa using h
    constructor
    · exact .inr
    · rintro (rfl | ha)
      · exact hmem
      · exact ha
  next => simp [or_comm]

theorem nodup_indexAdd (account : String) {l : List String} (hl : l.Nodup) :
    (indexAdd account l).2.Nodup := by
  unfold indexAdd
  split
  next => exact hl
  next h =>
    have hnot : account ∉ l := by simpa using h
    exact List.nodup_append.mpr ⟨hl, List.nodup_singleton _, fun a ha b hb => by
      rw [List.mem_singleton.mp hb]
      rintro rfl
      exact hnot ha⟩

theorem indexAdd_of_mem {account : String} {l : List String} (h : account ∈ l) :
    (indexAdd account l).1 = false := by
  unfold indexAdd
  rw [if_pos (List.any_eq_true.mpr ⟨account, h, decide_eq_true rfl⟩)]

theorem indexRemove_same (account : String) (l : List String)
    (h : (indexRemove account l).1 = false) : (indexRemove account l).2 = l := by
  unfold indexRemove at h ⊢
  have hlen : (l.filter fun a => a ≠ account).length = l.length :=
    not_not.mp (of_decide_eq_false h)
  exact List.filter_eq_self.mpr (List.length_filter_eq_length_iff.mp hlen)

theorem mem_indexRemove (account a : String) (l : List String) :
    a ∈ (indexRemove account l).2 ↔ a ∈ l ∧ a ≠ account := by
  unfold indexRemove
  simp

theorem nodup_indexRemove (account : String) {l : List String} (hl : l.Nodup) :
    (indexRemove account l).2.Nodup := hl.filter _

/-! ### One call -/

/-- The map in memory is the durable map, and its index lists it. -/
structure Holds (C : Codecs) (m : Entries) (stored : StoreKey → Option (List UInt8)) : Prop where
  regular : ∀ s a, isReserved a = false → m.lookup (s, a) = stored (s, a)
  reserved : ∀ s a, isReserved a = true → stored (s, a) = none
  index : ∀ s, ∃ accounts, indexOf C s m = .ok accounts ∧ accounts.Nodup ∧
    ∀ a, a ∈ accounts ↔ (stored (s, a)).isSome

theorem Holds.congr {m m' : Entries} {stored : StoreKey → Option (List UInt8)}
    (h : Holds C m stored) (heq : ∀ k, m'.lookup k = m.lookup k) : Holds C m' stored where
  regular s a ha := (heq _).trans (h.regular s a ha)
  reserved := h.reserved
  index s := by
    unfold indexOf
    rw [heq]
    exact h.index s

/-- An entry and its place in the index change together. -/
theorem Holds.indexed (hC : C.Lawful) {m m₁ : Entries} {stored : StoreKey → Option (List UInt8)}
    (h : Holds C m stored) {service account : String} (hacc : isReserved account = false)
    {entry : Option (List UInt8)} (hentry : m₁.lookup (service, account) = entry)
    (hother : ∀ k, k ≠ (service, account) → m₁.lookup k = m.lookup k)
    {change : List String → Bool × List String}
    (hsame : ∀ l, (change l).1 = false → (change l).2 = l)
    (hnodup : ∀ l : List String, l.Nodup → (change l).2.Nodup)
    (hmem : ∀ l a, a ∈ (change l).2 ↔
      (a = account ∧ entry.isSome = true) ∨ (a ≠ account ∧ a ∈ l)) :
    ∃ m', FileKeystore.indexed C change service account m₁ = .ok m' ∧
      Holds C m' (Function.update stored (service, account) entry) ∧
      m'.lookup (service, account) = entry ∧
      ((∀ l, (account ∈ l ↔ (stored (service, account)).isSome) → (change l).1 = false) →
        m' = m₁) := by
  obtain ⟨current, hcur, hcurNodup, hcurMem⟩ := h.index service
  have hkey : ∀ s, (s, sentinelAccount s) ≠ (service, account) := fun s hs =>
    ne_sentinel hacc s (Prod.mk.inj hs).2.symm
  have hcur₁ : indexOf C service m₁ = .ok current := by
    unfold indexOf at hcur ⊢
    rw [hother _ (hkey service), hcur]
  obtain ⟨m', hm', hindex, hrest, hsame'⟩ := indexed_ok hC hsame hacc hcur₁
  have hne : (service, account) ≠ (service, sentinelAccount service) := fun hs =>
    hkey service hs.symm
  refine ⟨m', hm', ⟨fun s a ha => ?_, fun s a ha => ?_, fun s => ?_⟩, (hrest _ hne).trans hentry,
    fun hkeep => hsame' (hkeep current (hcurMem account))⟩
  · have hsent : (s, a) ≠ (service, sentinelAccount service) := fun hs =>
      ne_sentinel ha service (Prod.mk.inj hs).2
    rw [hrest _ hsent]
    by_cases hk : (s, a) = (service, account)
    · rw [hk, Function.update_self, hentry]
    · rw [Function.update_of_ne hk, hother _ hk, h.regular s a ha]
  · have hk : (s, a) ≠ (service, account) := by
      rintro hk
      rw [(Prod.mk.inj hk).2, hacc] at ha
      cases ha
    rw [Function.update_of_ne hk, h.reserved s a ha]
  · by_cases hs : s = service
    · subst hs
      refine ⟨_, hindex, hnodup _ hcurNodup, fun a => ?_⟩
      rw [hmem]
      by_cases ha : a = account
      · rw [ha, Function.update_self]
        simp
      · rw [hcurMem, Function.update_of_ne fun hk => ha (Prod.mk.inj hk).2]
        simp [ha]
    · obtain ⟨accounts, haccounts, hnd, hmemA⟩ := h.index s
      refine ⟨accounts, ?_, hnd, fun a => ?_⟩
      · unfold indexOf at haccounts ⊢
        rw [hrest _ fun hk => hs (Prod.mk.inj hk).1, hother _ (hkey s), haccounts]
      · rw [Function.update_of_ne fun hk => hs (Prod.mk.inj hk).1, hmemA]

theorem Holds.storedMap (hC : C.Lawful) {m : Entries} {stored : StoreKey → Option (List UInt8)}
    (h : Holds C m stored) (service : String) {account : String}
    (hacc : isReserved account = false) (secret : List UInt8) :
    ∃ m', storedMap C service account secret m = .ok m' ∧
      Holds C m' (Function.update stored (service, account) (some secret)) ∧
      m'.lookup (service, account) = some secret ∧
      (m.lookup (service, account) = some secret → ∀ k, m'.lookup k = m.lookup k) := by
  obtain ⟨m', hm', hholds, hentry, hkeep⟩ := h.indexed hC hacc (AList.lookup_insert m)
    (fun k hk => AList.lookup_insert_ne hk) (indexAdd_same account)
    (fun l hl => nodup_indexAdd account hl) (fun l a => by
      rw [mem_indexAdd]
      by_cases ha : a = account <;> simp [ha])
  refine ⟨m', hm', hholds, hentry, fun hthere k => ?_⟩
  have hsome : (stored (service, account)).isSome := by
    rw [← h.regular _ _ hacc, hthere]
    rfl
  rw [hkeep fun l hl => indexAdd_of_mem (hl.mpr hsome)]
  by_cases hk : k = (service, account)
  · rw [hk, AList.lookup_insert, hthere]
  · exact AList.lookup_insert_ne hk

theorem Holds.deletedMap (hC : C.Lawful) {m : Entries} {stored : StoreKey → Option (List UInt8)}
    (h : Holds C m stored) {service account : String} (hacc : isReserved account = false) :
    ∃ m', deletedMap C service account m = .ok m' ∧
      Holds C m' (Function.update stored (service, account) none) ∧
      m'.lookup (service, account) = none := by
  obtain ⟨m', hm', hholds, hentry, -⟩ := h.indexed hC hacc (AList.lookup_erase _ m)
    (fun k hk => AList.lookup_erase_ne hk) (indexRemove_same account)
    (fun l hl => nodup_indexRemove account hl) (fun l a => by
      rw [mem_indexRemove]
      by_cases ha : a = account <;> simp [ha])
  exact ⟨m', hm', hholds, hentry⟩

/-- The map in memory is the durable map, and the file is read to it. -/
structure Refines (C : Codecs) (passphrase : String) (st : FileKeystoreAdapter)
    (stored : StoreKey → Option (List UInt8)) : Prop where
  holds : Holds C st.inner stored
  synced : Synced C passphrase st

variable {passphrase : String} {st : FileKeystoreAdapter} {stored : StoreKey → Option (List UInt8)}

theorem Refines.congr (h : Refines C passphrase st stored) {m : Entries}
    (heq : ∀ k, m.lookup k = st.inner.lookup k) : Refines C passphrase ⟨m, st.file⟩ stored := by
  obtain ⟨m', hm', hlook⟩ := h.synced
  exact ⟨h.holds.congr heq, m', hm', fun k => (hlook k).trans (heq k).symm⟩

theorem Refines.answers (h : Refines C passphrase st stored) : Answers C stored st where
  retrieves s a ha := by
    unfold retrieve
    rw [h.holds.regular s a ha]
  lists := h.holds.index

theorem Refines.good {v : Visit} (h : Refines C passphrase v.after v.stored)
    (hunchanged : ∀ e, v.result = .error e → v.after.file = v.before.file ∧
      ∀ k, v.after.inner.lookup k = v.before.inner.lookup k) : v.Good C passphrase :=
  ⟨h.synced, hunchanged, h.answers⟩

theorem commit_written (hC : C.Lawful) (passphrase : String) {io : Io} (hio : io.fault = none)
    {m' : Entries} {stored' : StoreKey → Option (List UInt8)} (hm' : Holds C m' stored')
    (m : Entries) (file : Option (List UInt8)) :
    ∃ st', commit C passphrase io m file (.ok m') = (.ok (), st') ∧
      Refines C passphrase st' stored' := by
  obtain ⟨ciphertext, m'', hpersist, hload, hlook⟩ := load_persisted hC passphrase hio m' file
  refine ⟨⟨m', some ciphertext⟩, ?_, hm', m'', hload, hlook⟩
  unfold commit
  simp only [hpersist]

theorem commit_failed (hC : C.Lawful) (passphrase : String) (io : Io) (hio : io.fault ≠ none)
    (m' m : Entries) (file : Option (List UInt8)) :
    ∃ e, commit C passphrase io m file (.ok m') = (.error e, ⟨m', file⟩) := by
  obtain ⟨fault, hfault⟩ := Option.ne_none_iff_exists'.mp hio
  obtain ⟨plaintext, -, hplain, -⟩ := hC.snapshot (nest C m')
  refine ⟨fault.error, ?_⟩
  unfold commit persist
  simp only [hplain, hfault]

/-- The visit of a call that returns `r` and leaves the adapter as it was. -/
theorem Refines.still (h : Refines C passphrase st stored) (call : Call)
    {r : Except KeychainError Reply} (happly : call.apply C passphrase st = (r, st))
    (hrecord : record stored call r = stored) :
    (call.visit C passphrase st stored).Good C passphrase ∧
      Refines C passphrase (call.visit C passphrase st stored).after
        (call.visit C passphrase st stored).stored := by
  have hafter : Refines C passphrase (call.visit C passphrase st stored).after
      (call.visit C passphrase st stored).stored := by
    unfold Call.visit
    rw [happly, hrecord]
    exact h
  refine ⟨hafter.good fun _ _ => ?_, hafter⟩
  unfold Call.visit
  rw [happly]
  exact ⟨rfl, fun _ => rfl⟩

/-- A mutation is harmless when the write succeeds, and when the map is as it was. -/
theorem Refines.mutation (hC : C.Lawful) (h : Refines C passphrase st stored) {call : Call} {io : Io}
    {m m' : Entries} {stored' : StoreKey → Option (List UInt8)} (hm' : Holds C m' stored')
    (happly : call.apply C passphrase st =
      ((commit C passphrase io m st.file (.ok m')).1.map fun _ => .done,
        (commit C passphrase io m st.file (.ok m')).2))
    (hdone : record stored call (.ok .done) = stored')
    (hfailed : ∀ e, record stored call (.error e) = stored) :
    ((call.visit C passphrase st stored).Good C passphrase ↔
      io.fault = none ∨ ∀ k, m'.lookup k = st.inner.lookup k) ∧
    ((io.fault = none ∨ ∀ k, m'.lookup k = st.inner.lookup k) →
      Refines C passphrase (call.visit C passphrase st stored).after
        (call.visit C passphrase st stored).stored) := by
  by_cases hio : io.fault = none
  · obtain ⟨st', hcommit, hst'⟩ := commit_written hC passphrase hio hm' m st.file
    rw [hcommit] at happly
    have hafter : Refines C passphrase (call.visit C passphrase st stored).after
        (call.visit C passphrase st stored).stored := by
      unfold Call.visit
      rw [happly]
      show Refines C passphrase st' (record stored call (.ok .done))
      rw [hdone]
      exact hst'
    refine ⟨⟨fun _ => .inl hio, fun _ => hafter.good fun e he => ?_⟩, fun _ => hafter⟩
    unfold Call.visit at he
    rw [happly] at he
    cases he
  · obtain ⟨e, hcommit⟩ := commit_failed hC passphrase _ hio m' m st.file
    rw [hcommit] at happly
    have hafter : (∀ k, m'.lookup k = st.inner.lookup k) →
        Refines C passphrase (call.visit C passphrase st stored).after
          (call.visit C passphrase st stored).stored := by
      intro heq
      unfold Call.visit
      rw [happly]
      show Refines C passphrase ⟨m', st.file⟩ (record stored call (.error e))
      rw [hfailed]
      exact h.congr heq
    have hvisit : (call.visit C passphrase st stored).after = ⟨m', st.file⟩ ∧
        (call.visit C passphrase st stored).result = .error e := by
      unfold Call.visit
      rw [happly]
      exact ⟨rfl, rfl⟩
    refine ⟨⟨fun hgood => .inr fun k => ?_, fun heq => ?_⟩, fun heq => hafter (heq.resolve_left hio)⟩
    · have hk := (hgood.unchanged e hvisit.2).2 k
      rw [hvisit.1] at hk
      exact hk
    · refine (hafter (heq.resolve_left hio)).good fun _ _ => ?_
      rw [hvisit.1]
      exact ⟨rfl, heq.resolve_left hio⟩

/-- **One call** is that of a durable map exactly when it is harmless, and then the map, the index and
the file stay in step. -/
theorem Refines.step (hC : C.Lawful) (h : Refines C passphrase st stored) {call : Call}
    (hreg : call.Regular) :
    ((call.visit C passphrase st stored).Good C passphrase ↔ call.Harmless st) ∧
    (call.Harmless st → Refines C passphrase (call.visit C passphrase st stored).after
      (call.visit C passphrase st stored).stored) := by
  cases call with
  | store service account secret io =>
    obtain ⟨m', hm', hholds, hentry, hkeep⟩ := h.holds.storedMap hC service hreg secret
    have hiff : (io.fault = none ∨ ∀ k, m'.lookup k = st.inner.lookup k) ↔
        (Call.store service account secret io).Harmless st := by
      refine or_congr_right ⟨fun heq => ?_, hkeep⟩
      rw [← heq, hentry]
    rw [← hiff]
    refine h.mutation (m := st.inner.insert (service, account) secret) hC hholds ?_ rfl fun _ => rfl
    have hstore : store C passphrase io service account secret st =
        commit C passphrase io (st.inner.insert (service, account) secret) st.file (.ok m') := by
      unfold store
      rw [hm']
    show ((store C passphrase io service account secret st).1.map _,
      (store C passphrase io service account secret st).2) = _
    rw [hstore]
  | delete service account io =>
    by_cases hthere : st.inner.lookup (service, account) = none
    · have hstill := h.still (.delete service account io) (r := .error .notFound) (by
        show ((delete C passphrase io service account st).1.map _, _) = _
        unfold delete
        rw [hthere]
        rfl) rfl
      exact ⟨⟨fun _ => .inr hthere, fun _ => hstill.1⟩, fun _ => hstill.2⟩
    · obtain ⟨m', hm', hholds, hentry⟩ := h.holds.deletedMap hC hreg
      have hiff : (io.fault = none ∨ ∀ k, m'.lookup k = st.inner.lookup k) ↔
          (Call.delete service account io).Harmless st := by
        refine or_congr_right ⟨fun heq => ?_, fun hnone => absurd hnone hthere⟩
        rw [← heq, hentry]
      rw [← hiff]
      refine h.mutation (m := st.inner.erase (service, account)) hC hholds ?_ rfl fun _ => rfl
      have hdelete : delete C passphrase io service account st =
          commit C passphrase io (st.inner.erase (service, account)) st.file (.ok m') := by
        unfold delete
        rw [if_neg (by simpa using hthere), hm']
      show ((delete C passphrase io service account st).1.map _,
        (delete C passphrase io service account st).2) = _
      rw [hdelete]
  | retrieve service account =>
    have hstill := h.still (.retrieve service account) rfl rfl
    exact ⟨⟨fun _ => trivial, fun _ => hstill.1⟩, fun _ => hstill.2⟩
  | list service =>
    have hstill := h.still (.list service) rfl rfl
    exact ⟨⟨fun _ => trivial, fun _ => hstill.1⟩, fun _ => hstill.2⟩
  | reopen fault =>
    rcases hopen : openFile C passphrase fault st.file with e | m
    · have hstill := h.still (.reopen fault) (r := .error e) (by
        show ((reopen C passphrase fault st).1.map _, (reopen C passphrase fault st).2) = _
        unfold reopen
        rw [hopen]
        rfl) rfl
      exact ⟨⟨fun _ => trivial, fun _ => hstill.1⟩, fun _ => hstill.2⟩
    · obtain ⟨m', hm', hlook⟩ := h.synced
      have hsame : openFile C passphrase none st.file = .ok m := by
        unfold openFile at hopen ⊢
        cases hfile : st.file with
        | none => rwa [hfile] at hopen
        | some ciphertext =>
          rw [hfile] at hopen
          cases fault with
          | none => exact hopen
          | some detail => cases hopen
      obtain rfl : m = m' := by simpa using hsame.symm.trans hm'
      have happly : (Call.reopen fault).apply C passphrase st = (.ok .done, ⟨m, st.file⟩) := by
        show ((reopen C passphrase fault st).1.map _, (reopen C passphrase fault st).2) = _
        unfold reopen
        rw [hopen]
        rfl
      have hafter : Refines C passphrase ((Call.reopen fault).visit C passphrase st stored).after
          ((Call.reopen fault).visit C passphrase st stored).stored := by
        unfold Call.visit
        rw [happly]
        exact h.congr hlook
      refine ⟨⟨fun _ => trivial, fun _ => hafter.good fun e he => ?_⟩, fun _ => hafter⟩
      unfold Call.visit at he
      rw [happly] at he
      cases he

/-! ### Runs -/

/-- A fresh adapter, with no file. -/
def FileKeystoreAdapter.empty : FileKeystoreAdapter := ⟨∅, none⟩

theorem Refines.empty (C : Codecs) (passphrase : String) :
    Refines C passphrase .empty fun _ => none where
  holds := ⟨fun _ _ _ => rfl, fun _ _ _ => rfl, fun _ => ⟨[], rfl, List.nodup_nil, fun _ => by simp⟩⟩
  synced := ⟨∅, rfl, fun _ => rfl⟩

theorem Refines.visits (hC : C.Lawful) : ∀ {calls : List Call} {st : FileKeystoreAdapter}
    {stored : StoreKey → Option (List UInt8)}, Refines C passphrase st stored →
    (∀ call ∈ calls, call.Regular) →
    ((∀ v ∈ FileKeystore.visits C passphrase calls st stored, v.Good C passphrase) ↔
      ∀ v ∈ FileKeystore.visits C passphrase calls st stored, v.call.Harmless v.before)
  | [], _, _, _, _ => by
    unfold FileKeystore.visits
    simp
  | call :: calls, st, stored, h, hreg => by
    obtain ⟨hcall, hreg⟩ := List.forall_mem_cons.mp hreg
    obtain ⟨hiff, hnext⟩ := h.step hC hcall
    unfold FileKeystore.visits
    rw [List.forall_mem_cons, List.forall_mem_cons, hiff]
    exact and_congr_right fun hharmless => (hnext hharmless).visits hC hreg

/-- **Runs.**  From a fresh keystore, every call is that of a durable map if and only if no write of
the file fails after the map in memory was changed: each store or delete either writes the file, or
stores the value that was there, or deletes nothing. -/
theorem keystore_refines_durable_map (hC : C.Lawful) (passphrase : String) {calls : List Call}
    (hreg : ∀ call ∈ calls, call.Regular) :
    (∀ v ∈ visits C passphrase calls .empty fun _ => none, v.Good C passphrase) ↔
      ∀ v ∈ visits C passphrase calls .empty fun _ => none, v.call.Harmless v.before :=
  (Refines.empty C passphrase).visits hC hreg

/-! ### Sample codecs -/

theorem dedupKeys_eq_self {β : String → Type} : ∀ {l : List (Sigma β)}, l.NodupKeys →
    l.dedupKeys = l
  | [], _ => rfl
  | e :: l, h => by
    obtain ⟨hnot, hl⟩ := List.nodupKeys_cons.mp h
    rw [List.dedupKeys_cons, dedupKeys_eq_self hl, List.kinsert_def, List.kerase_of_notMem_keys hnot]

theorem toAList_entries {β : String → Type} (m : AList β) : m.entries.toAList = m :=
  AList.ext ((AList.entries_toAList _).trans (dedupKeys_eq_self m.nodupKeys))

/-- The members of a snapshot's JSON text. -/
def members {β : Type} (m : AList fun _ : String => β) : List (String × β) :=
  m.entries.map fun e => (e.1, e.2)

/-- The map of the members of an object. -/
def ofMembers {β : Type} (l : List (String × β)) : AList fun _ : String => β :=
  (l.map fun e => (⟨e.1, e.2⟩ : Sigma fun _ : String => β)).toAList

theorem ofMembers_members {β : Type} (m : AList fun _ : String => β) : ofMembers (members m) = m := by
  unfold ofMembers members
  rw [List.map_map]
  exact (congrArg List.toAList (List.map_id m.entries)).trans (toAList_entries m)

/-- An object of the accounts of each service. -/
def snapshotFormat : Format Snapshot :=
  (object ((object text).imap ofMembers members ofMembers_members)).imap ofMembers members
    ofMembers_members

/-- Base64, JSON texts, and the plaintext behind the random bytes for an encryption. -/
def sampleCodecs : Codecs where
  base64Encode secret := String.ofList (Base64.encode secret)
  base64Decode text := (Base64.decode text.toList).elim (.error "invalid symbol") .ok
  snapshotToVec nested := .ok (toBytes snapshotFormat nested)
  snapshotFromSlice bytes := (ofBytes snapshotFormat bytes).elim (.error "expected an object") .ok
  indexToVec accounts := .ok (toBytes array accounts)
  valueFromSlice bytes := (ofBytes array bytes).elim (.error "expected an array") fun accounts =>
    .ok (.array (accounts.map .string))
  ageEncrypt _ _ plaintext := plaintext
  ageDecrypt _ ciphertext := .ok ciphertext

theorem sampleCodecs_lawful : sampleCodecs.Lawful where
  base64 secret := by
    show Option.elim (Base64.decode (String.ofList (Base64.encode secret)).toList) _ _ = _
    rw [String.toList_ofList, Base64.decode_encode]
    rfl
  snapshot nested := by
    refine ⟨_, nested, rfl, ?_, fun _ _ => rfl⟩
    show Option.elim (ofBytes snapshotFormat (toBytes snapshotFormat nested)) _ _ = _
    rw [ofBytes_toBytes]
    rfl
  index accounts := by
    refine ⟨_, rfl, toBytes_ne_nil rfl, ?_⟩
    show Option.elim (ofBytes array (toBytes array accounts)) _ _ = _
    rw [ofBytes_toBytes]
    rfl
  age _ _ _ := rfl

/-- A value is stored, read from the file again, deleted and listed. -/
theorem written_calls_are_durable : isReserved "a" = false ∧
    ∀ v ∈ visits sampleCodecs "p" [.store "s" "a" [1] ⟨0, none⟩, .reopen none,
      .delete "s" "a" ⟨1, none⟩, .list "s"] .empty fun _ => none, v.Good sampleCodecs "p" := by
  have hreg : isReserved "a" = false := by decide
  refine ⟨hreg, (keystore_refines_durable_map sampleCodecs_lawful "p" ?_).mpr ?_⟩
  · simp only [List.forall_mem_cons]
    exact ⟨hreg, trivial, hreg, trivial, fun _ h => absurd h List.not_mem_nil⟩
  · simp only [visits, List.forall_mem_cons]
    exact ⟨.inl rfl, trivial, .inl rfl, trivial, fun _ h => absurd h List.not_mem_nil⟩

/-- A rename that is refused. -/
def sampleReadOnly : Io := ⟨0, some (.rename "keystore.age" "read-only file system")⟩

/-- A store that fails stays in memory. -/
theorem failed_store_stays :
    ¬ ∀ (C : Codecs), C.Lawful → ∀ (passphrase : String) (calls : List Call),
      (∀ call ∈ calls, call.Regular) →
        ∀ v ∈ visits C passphrase calls .empty fun _ => none, v.Good C passphrase := by
  intro hclaim
  have hreg : isReserved "a" = false := by decide
  have hgood := hclaim sampleCodecs sampleCodecs_lawful "p" [.store "s" "a" [1] sampleReadOnly]
    (fun call hcall => by
      rw [List.mem_singleton.mp hcall]
      exact hreg) _ (List.mem_singleton.mpr rfl)
  obtain ⟨m', hm', -, hentry, -⟩ :=
    (Refines.empty sampleCodecs "p").holds.storedMap sampleCodecs_lawful "s" hreg [1]
  obtain ⟨e, hfailed⟩ := commit_failed sampleCodecs_lawful "p" sampleReadOnly
    (fun h => nomatch h) m'
    (FileKeystoreAdapter.empty.inner.insert ("s", "a") [1]) none
  have hstore : store sampleCodecs "p" sampleReadOnly "s" "a" [1] .empty = (.error e, ⟨m', none⟩) := by
    unfold store
    rw [hm']
    exact hfailed
  have happly : (Call.store "s" "a" [1] sampleReadOnly).apply sampleCodecs "p" .empty =
      (.error e, ⟨m', none⟩) := by
    show ((store sampleCodecs "p" sampleReadOnly "s" "a" [1] .empty).1.map _,
      (store sampleCodecs "p" sampleReadOnly "s" "a" [1] .empty).2) = _
    rw [hstore]
    rfl
  have hsame := (hgood.unchanged e (congrArg Prod.fst happly)).2 ("s", "a")
  have hnone : m'.lookup ("s", "a") = none :=
    (congrArg (fun r => r.2.inner.lookup ("s", "a")) happly).symm.trans hsame
  rw [hentry] at hnone
  cases hnone

end MerkleVault.Keystore.FileKeystore
