import MerkleVault.Socket.Handlers
import MerkleVault.Audit.Baseline
import MerkleVault.App.BackupCommands

/-! # The Inputs under the Audit Key

Six kinds of byte strings are hashed under the one audit key: the derivation of a namespace's data key,
the tag of an audit entry, the MAC of the pinned head, the MAC of a baseline, the MAC of a webhook
request and the MAC of a backup.  They carry no common tag; what keeps them apart is their lengths
(16, 48, 64 and 88 bytes, and more than 88 for the last two) and their first byte.

* `MacInput`, `MacInput.bytes`: the six inputs with the fields they cover;
* `macInput_bytes_injective`: the bytes tell the purpose and the fields;
* `purposes_separated`: the inputs of the program, and what a shared tag would be. -/

namespace MerkleVault.Socket.MacDomains

open MerkleVault.Types MerkleVault.External MerkleVault.Lib MerkleVault.Lib.Json MerkleVault.Audit.Entry
open MerkleVault.Audit.Writer MerkleVault.Audit.Baseline MerkleVault.App.Context
open MerkleVault.App.Host MerkleVault.App.BackupCommands MerkleVault.Socket.Handlers

/-! ### Numbers and texts as bytes -/

@[simp] theorem length_toLeBytes (n : UInt64) : (toLeBytes n).length = 8 := by simp [toLeBytes]

/-- Eight base-256 digits determine a number below `2 ^ 64`. -/
theorem eq_of_digits {a b : Nat} (ha : a < 2 ^ 64) (hb : b < 2 ^ 64)
    (h : ∀ i < 8, a / 2 ^ (8 * i) % 256 = b / 2 ^ (8 * i) % 256) : a = b := by
  have hmod : ∀ k ≤ 8, a % 2 ^ (8 * k) = b % 2 ^ (8 * k) := by
    intro k
    induction k with
    | zero =>
      intro _
      simp [Nat.mod_one]
    | succ k ih =>
      intro hk
      have hpow : 2 ^ (8 * (k + 1)) = 2 ^ (8 * k) * 256 := by rw [Nat.mul_succ, Nat.pow_add]
      rw [hpow, Nat.mod_mul, Nat.mod_mul, ih (by omega), h k (by omega)]
  have h8 := hmod 8 (by omega)
  rwa [Nat.mod_eq_of_lt ha, Nat.mod_eq_of_lt hb] at h8

theorem toLeBytes_injective : Function.Injective toLeBytes := by
  intro a b h
  rw [← UInt64.toNat_inj]
  refine eq_of_digits a.toNat_lt b.toNat_lt fun i hi => ?_
  have hshift : (8 * UInt64.ofNat i).toNat % 64 = 8 * i := by
    have height : (8 : UInt64).toNat = 8 := rfl
    rw [UInt64.toNat_mul, UInt64.toNat_ofNat', height]
    omega
  have hbyte := congrArg UInt8.toNat (List.map_inj_left.mp h i (List.mem_range.mpr hi))
  rwa [UInt64.toNat_toUInt8, UInt64.toNat_toUInt8, UInt64.toNat_shiftRight,
    UInt64.toNat_shiftRight, hshift, Nat.shiftRight_eq_div_pow, Nat.shiftRight_eq_div_pow] at hbyte

theorem jsonBytes_eq (m : JsonMap) :
    jsonBytes m = (renderObject m.entries).flatMap String.utf8EncodeChar := by
  rw [jsonBytes, String.toByteArray_ofList]
  simp [List.utf8Encode]

theorem length_le_flatMap {α β : Type} {f : α → List β} (h : ∀ a, f a ≠ []) :
    ∀ l : List α, l.length ≤ (l.flatMap f).length
  | [] => Nat.le_refl _
  | a :: l => by
    have hpos := List.length_pos_iff.mpr (h a)
    have hrest := length_le_flatMap h l
    rw [List.flatMap_cons, List.length_append, List.length_cons]
    omega

theorem length_le_jsonBytes (m : JsonMap) : (renderObject m.entries).length ≤ (jsonBytes m).length := by
  rw [jsonBytes_eq]
  exact length_le_flatMap (fun _ => String.utf8EncodeChar_ne_nil) _

/-! ### The webhook -/

/-- A tag, as the member of the webhook's object. -/
def signatureValue : Option HmacSignature → Scalar
  | some h => .string (displaySignature h)
  | none => .null

theorem signatureValue_injective : Function.Injective signatureValue := by
  intro a b h
  cases a with
  | none =>
    cases b with
    | none => rfl
    | some b => cases h
  | some a =>
    cases b with
    | none => cases h
    | some b => rw [displaySignature_injective (Scalar.string.inj h)]

/-- The object that `fire_audit_webhook` posts. -/
def webhookMembers (seq : UInt64) (op : AuditOp) (outcome : AuditOutcome) (currentHash : Blake3Hash)
    (hmac : Option HmacSignature) : JsonMap :=
  SortedMap.empty
    |>.insert "seq" (.number seq.toNat)
    |>.insert "op" (.string op.display)
    |>.insert "outcome" (.string outcome.display)
    |>.insert "current_hash" (.string (displayHash currentHash))
    |>.insert "hmac" (signatureValue hmac)

/-- Its members, sorted by key. -/
theorem entries_webhookMembers (seq : UInt64) (op : AuditOp) (outcome : AuditOutcome)
    (currentHash : Blake3Hash) (hmac : Option HmacSignature) :
    (webhookMembers seq op outcome currentHash hmac).entries =
      [("current_hash", .string (displayHash currentHash)), ("hmac", signatureValue hmac),
        ("op", .string op.display), ("outcome", .string outcome.display),
        ("seq", .number seq.toNat)] := by
  have hlt : "op" < "seq" ∧ ¬"outcome" < "op" ∧ "outcome" < "seq" ∧ "current_hash" < "op" ∧
      ¬"hmac" < "current_hash" ∧ "hmac" < "op" := by
    simp only [String.lt_iff_toList_lt]
    decide
  simp [webhookMembers, SortedMap.empty, SortedMap.insert, SortedMap.insertEntry, hlt]

/-- The body that is posted for an entry. -/
def webhookBody (entry : AuditEntry) : List UInt8 :=
  jsonBytes (webhookMembers entry.seq entry.op entry.outcome entry.currentHash entry.hmac)

/-- The header `X-Merkle-Audit-HMAC`. -/
def webhookMac (K : Crates) (key : Key) (entry : AuditEntry) : HmacSignature :=
  K.keyedHash key (webhookBody entry)

theorem webhookMembers_injective {seq seq' : UInt64} {op op' : AuditOp} {outcome outcome' : AuditOutcome}
    {hash hash' : Blake3Hash} {hmac hmac' : Option HmacSignature}
    (h : webhookMembers seq op outcome hash hmac = webhookMembers seq' op' outcome' hash' hmac') :
    seq = seq' ∧ op = op' ∧ outcome = outcome' ∧ hash = hash' ∧ hmac = hmac' := by
  have h := congrArg SortedMap.entries h
  simp only [entries_webhookMembers, List.cons.injEq, Prod.mk.injEq, Scalar.string.injEq,
    Scalar.number.injEq, true_and, and_true] at h
  obtain ⟨hhash, hhmac, hop, houtcome, hseq⟩ := h
  exact ⟨UInt64.toNat_inj.mp hseq, AuditOp.display_injective hop,
    AuditOutcome.display_injective houtcome, displayHash_injective hhash, signatureValue_injective hhmac⟩

theorem length_le_stringBody (cs : List Char) : cs.length < (stringBody cs).length := by
  have hle := length_le_flatMap (f := escapeChar) (fun c he => by
    obtain ⟨x, t, hx, -⟩ := escapeChar_head c
    rw [hx] at he
    cases he) cs
  rw [stringBody, List.length_append, List.length_singleton]
  omega

/-- The length of an object that starts with a string. -/
theorem length_renderObject (key value : String) (ms : List (String × Scalar)) :
    key.toList.length + value.toList.length + 6 ≤
      (renderObject ((key, .string value) :: ms)).length := by
  have hkey := length_le_stringBody key.toList
  have hvalue := length_le_stringBody value.toList
  simp only [renderObject, renderMember, renderScalar, List.length_cons, List.length_append]
  omega

/-- The first key and the digits of the hash alone are longer than a baseline's input. -/
theorem length_webhookBody (seq : UInt64) (op : AuditOp) (outcome : AuditOutcome) (hash : Blake3Hash)
    (hmac : Option HmacSignature) : 88 < (jsonBytes (webhookMembers seq op outcome hash hmac)).length := by
  have hdigits := length_displayHash hash
  have htwelve : "current_hash".toList.length = 12 := by decide
  have htext := length_renderObject "current_hash" (displayHash hash) [("hmac", signatureValue hmac),
    ("op", .string op.display), ("outcome", .string outcome.display), ("seq", .number seq.toNat)]
  have hbytes := length_le_jsonBytes (webhookMembers seq op outcome hash hmac)
  rw [hdigits, htwelve] at htext
  rw [entries_webhookMembers] at hbytes
  exact Nat.lt_of_lt_of_le (by omega) (htext.trans hbytes)

theorem head_webhookBody (seq : UInt64) (op : AuditOp) (outcome : AuditOutcome) (hash : Blake3Hash)
    (hmac : Option HmacSignature) :
    (jsonBytes (webhookMembers seq op outcome hash hmac)).head? = some 123 := by
  rw [jsonBytes_eq, entries_webhookMembers, renderObject, List.flatMap_cons]
  rfl

/-! ### The six inputs -/

/-- `age-encryption.org/v1` and a line feed. -/
def ageHeader : List UInt8 := "age-encryption.org/v1\n".toUTF8.data.toList

/-- What an age encryption returns. -/
structure AgeCiphertext where
  bytes : List UInt8
  header : ageHeader <+: bytes
  long : 100 < bytes.length

/-- What is hashed under the audit key, by purpose. -/
inductive MacInput
  | namespaceDek (id : NamespaceId)
  | entryTag (hash : Blake3Hash) (id : AuditEntryId)
  | pinnedHead (hash : Blake3Hash) (seq : UInt64) (id : AuditEntryId) (entryCount : UInt64)
  | baseline (hash : Blake3Hash) (seq : UInt64) (id : AuditEntryId) (entryCount : UInt64)
  | webhook (seq : UInt64) (op : AuditOp) (outcome : AuditOutcome) (hash : Blake3Hash)
      (hmac : Option HmacSignature)
  | backup (ciphertext : AgeCiphertext)

/-- A hash, a counter, an identifier and a counter. -/
def headBytes (hash : Blake3Hash) (seq : UInt64) (id : AuditEntryId) (entryCount : UInt64) :
    List UInt8 :=
  hash.asBytes.toList ++ toLeBytes seq ++ id.inner.toList ++ toLeBytes entryCount

/-- The bytes that are hashed for each purpose. -/
def MacInput.bytes : MacInput → List UInt8
  | namespaceDek id => id.inner.toList
  | entryTag hash id => hash.asBytes.toList ++ id.inner.toList
  | pinnedHead hash seq id entryCount => headBytes hash seq id entryCount
  | baseline hash seq id entryCount => AuditBaseline.macDomain ++ headBytes hash seq id entryCount
  | webhook seq op outcome hash hmac => jsonBytes (webhookMembers seq op outcome hash hmac)
  | backup ciphertext => ciphertext.bytes

@[simp] theorem length_headBytes (hash : Blake3Hash) (seq : UInt64) (id : AuditEntryId)
    (entryCount : UInt64) : (headBytes hash seq id entryCount).length = 64 := by
  simp [headBytes]

theorem headBytes_injective {hash hash' : Blake3Hash} {seq seq' : UInt64} {id id' : AuditEntryId}
    {entryCount entryCount' : UInt64}
    (h : headBytes hash seq id entryCount = headBytes hash' seq' id' entryCount') :
    hash = hash' ∧ seq = seq' ∧ id = id' ∧ entryCount = entryCount' := by
  obtain ⟨h, hcount⟩ := List.append_inj h (by simp)
  obtain ⟨h, hid⟩ := List.append_inj h (by simp)
  obtain ⟨hhash, hseq⟩ := List.append_inj h (by simp)
  exact ⟨congrArg Blake3Hash.mk (Vector.toList_inj.mp hhash), toLeBytes_injective hseq,
    congrArg AuditEntryId.mk (Vector.toList_inj.mp hid), toLeBytes_injective hcount⟩

/-- The length of the inputs of fixed length, and a common length for the others. -/
def MacInput.kind : MacInput → Nat
  | namespaceDek _ => 16
  | entryTag _ _ => 48
  | pinnedHead _ _ _ _ => 64
  | baseline _ _ _ _ => 88
  | webhook _ _ _ _ _ => 123
  | backup _ => 97

/-- The purpose can be told from the bytes: by the length, and by the first byte of a longer text. -/
theorem kind_eq (x : MacInput) : x.kind =
    if x.bytes.length ≤ 88 then x.bytes.length else (x.bytes.head?.getD 0).toNat := by
  cases x with
  | namespaceDek id => simp [MacInput.kind, MacInput.bytes]
  | entryTag hash id => simp [MacInput.kind, MacInput.bytes]
  | pinnedHead hash seq id entryCount => simp [MacInput.kind, MacInput.bytes]
  | baseline hash seq id entryCount =>
    have hdomain : AuditBaseline.macDomain.length = 24 := rfl
    simp [MacInput.kind, MacInput.bytes, hdomain]
  | webhook seq op outcome hash hmac =>
    have hlong : ¬ (MacInput.webhook seq op outcome hash hmac).bytes.length ≤ 88 :=
      Nat.not_le.mpr (length_webhookBody seq op outcome hash hmac)
    have hhead : (MacInput.webhook seq op outcome hash hmac).bytes.head? = some 123 :=
      head_webhookBody seq op outcome hash hmac
    rw [if_neg hlong, hhead]
    rfl
  | backup ciphertext =>
    have hlong : ¬ (MacInput.backup ciphertext).bytes.length ≤ 88 :=
      Nat.not_le.mpr (Nat.lt_of_le_of_lt (by decide) ciphertext.long)
    have hhead : (MacInput.backup ciphertext).bytes.head? = some 97 := by
      obtain ⟨rest, hrest⟩ := ciphertext.header
      rw [MacInput.bytes, ← hrest]
      rfl
    rw [if_neg hlong, hhead]
    rfl

/-- **The bytes tell the purpose and the fields.** -/
theorem macInput_bytes_injective : Function.Injective MacInput.bytes := by
  intro x y h
  have hkind : x.kind = y.kind := by rw [kind_eq, kind_eq, h]
  cases x with
  | namespaceDek id =>
    cases y with
    | namespaceDek id' => exact congrArg (MacInput.namespaceDek ⟨·⟩) (Vector.toList_inj.mp h)
    | _ => cases hkind
  | entryTag hash id =>
    cases y with
    | entryTag hash' id' =>
      obtain ⟨hhash, hid⟩ := List.append_inj h (by simp)
      exact congrArg₂ (MacInput.entryTag ⟨·⟩ ⟨·⟩) (Vector.toList_inj.mp hhash) (Vector.toList_inj.mp hid)
    | _ => cases hkind
  | pinnedHead hash seq id entryCount =>
    cases y with
    | pinnedHead hash' seq' id' entryCount' =>
      obtain ⟨rfl, rfl, rfl, rfl⟩ := headBytes_injective h
      rfl
    | _ => cases hkind
  | baseline hash seq id entryCount =>
    cases y with
    | baseline hash' seq' id' entryCount' =>
      obtain ⟨rfl, rfl, rfl, rfl⟩ := headBytes_injective (List.append_cancel_left h)
      rfl
    | _ => cases hkind
  | webhook seq op outcome hash hmac =>
    cases y with
    | webhook seq' op' outcome' hash' hmac' =>
      obtain ⟨rfl, rfl, rfl, rfl, rfl⟩ := webhookMembers_injective (jsonBytes_injective h)
      rfl
    | _ => cases hkind
  | backup ciphertext =>
    cases y with
    | backup ciphertext' =>
      cases ciphertext
      cases ciphertext'
      cases h
      rfl
    | _ => cases hkind

/-! ### What the program hashes -/

theorem computeHeadMac_eq (K : Crates) (p : PinnedHead) (key : Key) (entryCount : UInt64) :
    p.computeHeadMac K key entryCount =
      K.keyedHash key (MacInput.pinnedHead p.headHash p.headSeq p.headId entryCount).bytes := rfl

theorem computeMac_eq (K : Crates) (b : AuditBaseline) (key : Key) :
    b.computeMac K key = K.keyedHash key
      (MacInput.baseline b.baselineHash b.baselineSeq b.baselineId b.entryCount).bytes := by
  rw [AuditBaseline.computeMac, AuditBaseline.macInput, MacInput.bytes, headBytes]
  simp only [List.append_assoc]

/-- What the program computes under the audit key for a purpose, a tag or the data key of a namespace:
32 bytes each. -/
inductive Served (W : World) (key : Key) : MacInput → Vector UInt8 32 → Prop
  | namespaceDek (id : NamespaceId) : Served W key (.namespaceDek id) (namespaceDek W.toEnv key id)
  | entryTag (hash : Blake3Hash) (id : AuditEntryId) :
      Served W key (.entryTag hash id) (entryMac W.toCrates key hash id).asBytes
  | pinnedHead (p : PinnedHead) (entryCount : UInt64) :
      Served W key (.pinnedHead p.headHash p.headSeq p.headId entryCount)
        (p.computeHeadMac W.toCrates key entryCount).asBytes
  | baseline (b : AuditBaseline) :
      Served W key (.baseline b.baselineHash b.baselineSeq b.baselineId b.entryCount)
        (b.computeMac W.toCrates key).asBytes
  | webhook (e : AuditEntry) :
      Served W key (.webhook e.seq e.op e.outcome e.currentHash e.hmac)
        (webhookMac W.toCrates key e).asBytes
  | backup (ciphertext : AgeCiphertext) :
      Served W key (.backup ciphertext) (backupHmac W key ciphertext.bytes).asBytes

variable {W : World} {key : Key} {x y : MacInput} {v : Vector UInt8 32}

/-- It is the keyed hash of the input. -/
theorem Served.eq (h : Served W key x v) : v = (W.keyedHash key x.bytes).asBytes := by
  cases h with
  | namespaceDek id => rfl
  | entryTag hash id => rfl
  | pinnedHead p entryCount => rw [computeHeadMac_eq]
  | baseline b => rw [computeMac_eq]
  | webhook e => rfl
  | backup ciphertext => rfl

/-- **One value for two inputs** is a collision of the keyed hash at their bytes. -/
theorem Served.collision (hx : Served W key x v) (hy : Served W key y v) (hne : x ≠ y) :
    x.bytes ≠ y.bytes ∧ W.keyedHash key x.bytes = W.keyedHash key y.bytes :=
  ⟨fun h => hne (macInput_bytes_injective h), congrArg HmacSignature.mk (hx.eq.symm.trans hy.eq)⟩

/-- **Domain separation under the audit key.**  The bytes tell purpose and fields; what the program
computes for each of the six purposes is the keyed hash of these bytes, one function for tags and
data keys; and a value that served for two inputs would be a collision of it at their bytes, so that
none does when there is no collision among the inputs. -/
theorem purposes_separated (W : World) (key : Key) :
    Function.Injective MacInput.bytes ∧
    (∀ x v, Served W key x v → v = (W.keyedHash key x.bytes).asBytes) ∧
    (∀ x y v, Served W key x v → Served W key y v → x ≠ y →
      x.bytes ≠ y.bytes ∧ W.keyedHash key x.bytes = W.keyedHash key y.bytes) ∧
    (Set.InjOn (W.keyedHash key) (Set.range MacInput.bytes) →
      ∀ x y v, Served W key x v → Served W key y v → x = y) := by
  refine ⟨macInput_bytes_injective, fun _ _ h => h.eq, fun _ _ _ hx hy => hx.collision hy, ?_⟩
  intro hinj x y v hx hy
  by_contra hne
  obtain ⟨hbytes, htag⟩ := hx.collision hy hne
  exact hbytes (hinj (Set.mem_range_self x) (Set.mem_range_self y) htag)

/-- The header line and a hundred bytes. -/
def sampleCiphertext : AgeCiphertext where
  bytes := ageHeader ++ List.replicate 100 0
  header := List.prefix_append _ _
  long := by decide

/-- Its MAC and the data key of a namespace are taken of different bytes. -/
example (id : NamespaceId) : (MacInput.backup sampleCiphertext).bytes ≠ (MacInput.namespaceDek id).bytes :=
  fun h => nomatch macInput_bytes_injective h

end MerkleVault.Socket.MacDomains
