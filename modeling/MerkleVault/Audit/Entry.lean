import MerkleVault.External

/-! # Audit Entries and Their Canonical Bytes

An entry of the audit log, and the bytes that its hash commits to: the JSON object of every field but
`current_hash` and `hmac`, members sorted by key, followed by the 32 bytes of the previous hash.
Optional fields are left out when absent.

`canonicalBytes_inj`: equal canonical bytes come from one record, timestamps to the microsecond, and
one previous hash; `canonicalBytes_commit` is the same for the JSON text itself. -/

namespace MerkleVault.Audit.Entry

open MerkleVault.Types MerkleVault.External MerkleVault.Lib MerkleVault.Lib.Json

/-- The errors of the audit domain. -/
inductive DomainError
  | brokenChainLink (entryId : AuditEntryId) (expectedSeq actualSeq : UInt64)
  | prevHashMismatch (entryId : AuditEntryId)
  | invalidHmacKeyLength (actualLen : Nat)
  | canonicalSerializationFailed
  | genesisEntryOnNonEmptyLog (existingLen : Nat)
deriving DecidableEq

/-- An entry of the log. -/
structure AuditEntry where
  id : AuditEntryId
  seq : UInt64
  ts : Rfc3339Timestamp
  namespaceId : NamespaceId
  callerProgram : Option String
  op : AuditOp
  outcome : AuditOutcome
  denialReason : Option DenialReason
  handle : Option Handle
  sensitivity : Option Sensitivity
  prevHash : Option Blake3Hash
  currentHash : Blake3Hash
  hmac : Option HmacSignature
deriving DecidableEq

variable (K : Crates)

/-- The JSON object of an entry.  The members are inserted in this order and sorted by the map, which
puts `sensitivity` before `seq`. -/
def canonicalMap (e : AuditEntry) : JsonMap :=
  SortedMap.empty
    |>.insertOpt "caller_program" (e.callerProgram.map .string)
    |>.insertOpt "denial_reason" (e.denialReason.map fun d => .string d.asStr)
    |>.insertOpt "handle" (e.handle.map fun h => .string h.display)
    |>.insert "id" (.string (K.hyphenated e.id.inner))
    |>.insert "namespace_id" (.string (K.hyphenated e.namespaceId.inner))
    |>.insert "op" (.string e.op.display)
    |>.insert "outcome" (.string e.outcome.display)
    |>.insert "seq" (.number e.seq.toNat)
    |>.insertOpt "sensitivity" (e.sensitivity.map fun s => .string s.display)
    |>.insert "ts" (.string (K.toRfc3339 e.ts))

/-- `canonical_bytes_for_hashing`: the canonical JSON text and the previous hash. -/
def canonicalBytesForHashing (e : AuditEntry) (prevHash : Blake3Hash) :
    Except DomainError (List UInt8) :=
  match K.toVec (canonicalMap K e) with
  | some bs => .ok (bs ++ prevHash.asBytes.toList)
  | none => .error .canonicalSerializationFailed

/-- Check the link of an entry to its predecessor. -/
def verifyLink (e prev : AuditEntry) : Except DomainError Unit :=
  if e.seq ≠ prev.seq + 1 then .error (.brokenChainLink e.id (prev.seq + 1) e.seq)
  else if e.prevHash ≠ some prev.currentHash then .error (.prevHashMismatch e.id)
  else .ok ()

/-! ### What the canonical bytes determine -/

/-- The recorded fields agree, timestamps at microsecond precision. -/
structure SameRecord (e e' : AuditEntry) : Prop where
  id : e.id = e'.id
  seq : e.seq = e'.seq
  ts : e.ts.micros = e'.ts.micros
  namespaceId : e.namespaceId = e'.namespaceId
  callerProgram : e.callerProgram = e'.callerProgram
  op : e.op = e'.op
  outcome : e.outcome = e'.outcome
  denialReason : e.denialReason = e'.denialReason
  handle : e.handle = e'.handle
  sensitivity : e.sensitivity = e'.sensitivity

/-- Equality of entries with timestamps compared at microsecond precision. -/
structure SameEntry (e e' : AuditEntry) : Prop extends SameRecord e e' where
  prevHash : e.prevHash = e'.prevHash
  currentHash : e.currentHash = e'.currentHash
  hmac : e.hmac = e'.hmac

theorem Scalar.string_injective : Function.Injective Scalar.string := by
  intro a b h
  exact Scalar.string.inj h

variable {K}

/-- The members determine the record: look each key up on both sides. -/
theorem canonicalMap_inj {e e' : AuditEntry} (h : canonicalMap K e = canonicalMap K e') :
    SameRecord e e' := by
  have hl : ∀ k, (canonicalMap K e).get? k = (canonicalMap K e').get? k := fun k => by rw [h]
  simp only [canonicalMap, SortedMap.get?_insert, SortedMap.get?_insertOpt,
    SortedMap.get?_empty] at hl
  have text : ∀ {α : Type} {f : α → String} {a b : Option α}, Function.Injective f →
      a.map (fun x => Scalar.string (f x)) = b.map (fun x => Scalar.string (f x)) → a = b := by
    intro α f a b hf hab
    exact Option.map_injective (Scalar.string_injective.comp hf) hab
  have hid := hl "id"
  have hns := hl "namespace_id"
  have hop := hl "op"
  have hout := hl "outcome"
  have hseq := hl "seq"
  have hts := hl "ts"
  have hprog := hl "caller_program"
  have hden := hl "denial_reason"
  have hhan := hl "handle"
  have hsen := hl "sensitivity"
  simp only [String.reduceEq, ↓reduceIte, Option.some.injEq, Scalar.string.injEq,
    Scalar.number.injEq, Option.or_none] at hid hns hop hout hseq hts hprog hden hhan hsen
  exact {
    id := by
      have := K.hyphenated_injective hid
      exact congrArg AuditEntryId.mk this
    seq := UInt64.toNat_inj.mp hseq
    ts := K.micros_of_toRfc3339 _ _ hts
    namespaceId := by
      have := K.hyphenated_injective hns
      exact congrArg NamespaceId.mk this
    callerProgram := Option.map_injective Scalar.string_injective hprog
    op := AuditOp.display_injective hop
    outcome := AuditOutcome.display_injective hout
    denialReason := text (fun a b hab => congrArg DenialReason.mk hab) hden
    handle := text Handle.display_injective hhan
    sensitivity := text Sensitivity.display_injective hsen }

theorem exists_canonicalBytes (K : Crates) (e : AuditEntry) (p : Blake3Hash) :
    ∃ bs, canonicalBytesForHashing K e p = .ok bs := by
  obtain ⟨js, hjs⟩ := Option.isSome_iff_exists.mp (K.toVec_isSome (canonicalMap K e))
  exact ⟨js ++ p.asBytes.toList, by simp [canonicalBytesForHashing, hjs]⟩

/-- **Canonical bytes determine the record and the previous hash.** -/
theorem canonicalBytes_inj {e e' : AuditEntry} {p p' : Blake3Hash} {bs : List UInt8}
    (h : canonicalBytesForHashing K e p = .ok bs) (h' : canonicalBytesForHashing K e' p' = .ok bs) :
    SameRecord e e' ∧ p = p' := by
  unfold canonicalBytesForHashing at h h'
  split at h
  · next js hjs =>
    split at h'
    · next js' hjs' =>
      have happ : js ++ p.asBytes.toList = js' ++ p'.asBytes.toList :=
        (Except.ok.inj h).trans (Except.ok.inj h').symm
      obtain ⟨hj, hp⟩ := List.append_inj' happ (by simp)
      subst hj
      refine ⟨canonicalMap_inj (K.toVec_injective _ _ _ hjs hjs'), ?_⟩
      exact congrArg Blake3Hash.mk (Vector.toList_inj.mp hp)
    · cases h'
  · cases h

/-- **The canonical encoding commits to every field**, whatever quotes, braces or key-like text the
free fields hold: the compact JSON text of the members, in their order, is read back to them, and
the previous hash is the last 32 bytes. -/
theorem canonicalBytes_commit (K : Crates) (hjson : ∀ m, K.toVec m = some (jsonBytes m))
    (e₁ e₂ : AuditEntry) (p₁ p₂ : Blake3Hash)
    (h : canonicalBytesForHashing K e₁ p₁ = canonicalBytesForHashing K e₂ p₂) :
    p₁ = p₂ ∧ SameRecord e₁ e₂ := by
  unfold canonicalBytesForHashing at h
  rw [hjson, hjson] at h
  have happ : jsonBytes (canonicalMap K e₁) ++ p₁.asBytes.toList =
      jsonBytes (canonicalMap K e₂) ++ p₂.asBytes.toList := Except.ok.inj h
  obtain ⟨hmap, hhash⟩ := List.append_inj' happ (by simp)
  exact ⟨congrArg Blake3Hash.mk (Vector.toList_inj.mp hhash), canonicalMap_inj (jsonBytes_injective hmap)⟩

/-- An entry whose denial reason reads like another member. -/
def sampleEntry (t : Rfc3339Timestamp) : AuditEntry where
  id := ⟨Vector.replicate 16 1⟩
  seq := 7
  ts := t
  namespaceId := ⟨Vector.replicate 16 2⟩
  callerProgram := none
  op := .reveal
  outcome := .deny
  denialReason := some ⟨"\",\"handle\":\"vault://prod/database/orders"⟩
  handle := none
  sensitivity := some .high
  prevHash := none
  currentHash := genesis
  hmac := none

/-- Two entries less than a microsecond apart have the same bytes and the same record. -/
theorem canonicalBytes_commit_sample :
    sampleEntry ⟨0, 0, by decide, by decide⟩ ≠ sampleEntry ⟨0, 1, by decide, by decide⟩ ∧
    genesis = genesis ∧
    SameRecord (sampleEntry ⟨0, 0, by decide, by decide⟩)
      (sampleEntry ⟨0, 1, by decide, by decide⟩) := by
  refine ⟨by decide, ?_⟩
  exact canonicalBytes_commit (.ofHash (fun _ => genesis) fun _ _ => ⟨Vector.replicate 32 0⟩)
    (fun _ => rfl) _ _ genesis genesis rfl

end MerkleVault.Audit.Entry
