import MerkleVault.Types
import MerkleVault.Lib.Json
import MerkleVault.Lib.SortedMap

/-! # The Crates Outside the Repository

The vault hashes with `blake3`, prints identifiers with `uuid`, timestamps with `chrono` and
canonical entries with `serde_json`.  `Crates` collects these functions with what their
documentation says of the three printers; nothing is assumed of the hash and the MAC here. -/

namespace MerkleVault.External

open MerkleVault.Types MerkleVault.Lib MerkleVault.Lib.Encoding MerkleVault.Lib.Json

/-- A `serde_json` object of strings and numbers: `Map` is a `BTreeMap`, its members are sorted by
key. -/
abbrev JsonMap := SortedMap String Scalar

/-- The external functions that the code calls. -/
structure Crates where
  /-- `blake3::hash`. -/
  hash : List UInt8 → Blake3Hash
  /-- `blake3::keyed_hash`. -/
  keyedHash : Key → List UInt8 → HmacSignature
  /-- `Uuid::hyphenated`. -/
  hyphenated : Uuid → String
  /-- `DateTime::to_rfc3339_opts(SecondsFormat::Micros, true)`. -/
  toRfc3339 : Rfc3339Timestamp → String
  /-- `serde_json::to_vec` on an object, `none` when serialization fails. -/
  toVec : JsonMap → Option (List UInt8)
  hyphenated_injective : Function.Injective hyphenated
  /-- Two instants with one text agree to the microsecond. -/
  micros_of_toRfc3339 : ∀ a b, toRfc3339 a = toRfc3339 b → a.micros = b.micros
  /-- JSON text is read back to the object that was written. -/
  toVec_injective : ∀ a b bs, toVec a = some bs → toVec b = some bs → a = b
  /-- An object whose keys are strings always serializes. -/
  toVec_isSome : ∀ m, (toVec m).isSome = true

/-! ### The printers, concretely -/

/-- Two hexadecimal digits for each byte. -/
def hexBytes (bs : List UInt8) : List Char :=
  bs.flatMap fun b => [hexDigit (b.toNat / 16), hexDigit (b.toNat % 16)]

theorem hexBytes_injective : Function.Injective hexBytes := by
  intro a
  induction a with
  | nil =>
    intro b h
    cases b with
    | nil => rfl
    | cons y b => simp [hexBytes] at h
  | cons x a ih =>
    intro b h
    cases b with
    | nil => simp [hexBytes] at h
    | cons y b =>
      simp only [hexBytes, List.flatMap_cons, List.cons_append, List.nil_append,
        List.cons.injEq] at h
      obtain ⟨hhi, hlo, ht⟩ := h
      have hx := x.toNat_lt
      have hy := y.toNat_lt
      have h1 : x.toNat / 16 = y.toNat / 16 := by
        rw [← hexValue_hexDigit (n := x.toNat / 16) (by omega), hhi,
          hexValue_hexDigit (by omega)]
      have h2 : x.toNat % 16 = y.toNat % 16 := by
        rw [← hexValue_hexDigit (n := x.toNat % 16) (by omega), hlo,
          hexValue_hexDigit (by omega)]
      have hxy : x = y := UInt8.toNat_inj.mp (by omega)
      rw [hxy, ih ht]

@[simp] theorem length_hexBytes (bs : List UInt8) : (hexBytes bs).length = 2 * bs.length := by
  induction bs with
  | nil => rfl
  | cons b bs ih =>
    simp only [hexBytes, List.flatMap_cons, List.length_append] at ih ⊢
    rw [ih]
    simp
    omega

/-- `blake3:` and the digits. -/
def displayHash (h : Blake3Hash) : String := String.ofList ("blake3:".toList ++ hexBytes h.asBytes.toList)

theorem length_displayHash (h : Blake3Hash) : (displayHash h).toList.length = 71 := by
  have hseven : "blake3:".toList.length = 7 := by decide
  unfold displayHash
  rw [String.toList_ofList, List.length_append, length_hexBytes, Vector.length_toList, hseven]

theorem displayHash_injective : Function.Injective displayHash := by
  intro a b h
  have hdigits := List.append_cancel_left (String.ofList_inj.mp h)
  exact congrArg Blake3Hash.mk (Vector.toList_inj.mp (hexBytes_injective hdigits))

/-- `Display` of a signature: its hexadecimal digits. -/
def displaySignature (h : HmacSignature) : String := String.ofList (hexBytes h.asBytes.toList)

theorem displaySignature_injective : Function.Injective displaySignature := by
  intro a b h
  have hdigits := String.ofList_inj.mp h
  exact congrArg HmacSignature.mk (Vector.toList_inj.mp (hexBytes_injective hdigits))

theorem hyphen_notMem_hexBytes (bs : List UInt8) : '-' ∉ hexBytes bs := by
  have hd : ∀ n : Fin 16, hexDigit n ≠ '-' := by decide
  intro h
  obtain ⟨b, -, hb⟩ := List.mem_flatMap.mp h
  have := b.toNat_lt
  simp only [List.mem_cons, List.not_mem_nil, or_false] at hb
  rcases hb with hb | hb
  · exact hd ⟨b.toNat / 16, by omega⟩ hb.symm
  · exact hd ⟨b.toNat % 16, by omega⟩ hb.symm

/-- The lowercase hyphenated form 8-4-4-4-12. -/
def uuidChars (u : List UInt8) : List Char :=
  hexBytes (u.take 4) ++ '-' :: (hexBytes ((u.drop 4).take 2) ++ '-' ::
    (hexBytes ((u.drop 6).take 2) ++ '-' :: (hexBytes ((u.drop 8).take 2) ++ '-' ::
      hexBytes (u.drop 10))))

theorem uuidChars_injective : Function.Injective uuidChars := by
  intro a b h
  have hm := fun bs => hyphen_notMem_hexBytes bs
  obtain ⟨h1, h⟩ := cut_at_separator (hm _) (hm _) h
  obtain ⟨h2, h⟩ := cut_at_separator (hm _) (hm _) h
  obtain ⟨h3, h⟩ := cut_at_separator (hm _) (hm _) h
  obtain ⟨h4, h5⟩ := cut_at_separator (hm _) (hm _) h
  have glue : ∀ u : List UInt8, u.take 4 ++ ((u.drop 4).take 2 ++ ((u.drop 6).take 2 ++
      ((u.drop 8).take 2 ++ u.drop 10))) = u := by
    intro u
    have step : ∀ n m, (u.drop n).take m ++ u.drop (n + m) = u.drop n := by
      intro n m
      rw [← List.drop_drop, List.take_append_drop]
    rw [step 8 2, step 6 2, step 4 2, List.take_append_drop]
  rw [← glue a, ← glue b, hexBytes_injective h1, hexBytes_injective h2, hexBytes_injective h3,
    hexBytes_injective h4, hexBytes_injective h5]

/-- The hyphenated text of a UUID. -/
def uuidText (u : Uuid) : String := String.ofList (uuidChars u.toList)

theorem uuidText_injective : Function.Injective uuidText := by
  intro a b h
  exact Vector.toList_inj.mp (uuidChars_injective (String.ofList_inj.mp h))

/-- The sign of a time before or after the epoch. -/
def signChar (t : Rfc3339Timestamp) : Char := if t.timestamp < 0 then '-' else '+'

theorem signChar_inj {a b : Rfc3339Timestamp} (h : signChar a = signChar b) :
    a.timestamp < 0 ↔ b.timestamp < 0 := by
  unfold signChar at h
  split_ifs at h with ha hb hb
  · exact iff_of_true ha hb
  · exact absurd h (by decide)
  · exact absurd h (by decide)
  · exact iff_of_false ha hb

theorem epoch_ne_signed (t : Rfc3339Timestamp) (l : List Char) :
    "1970-01-01T00:00:00.000000Z".toList ≠ signChar t :: l := by
  intro hl
  have hhd := congrArg List.head? hl
  unfold signChar at hhd
  split_ifs at hhd
  · exact absurd hhd (by simp)
  · exact absurd hhd (by simp)

/-- The RFC 3339 text of the epoch, and a decimal text for every other instant. -/
def epochText (t : Rfc3339Timestamp) : List Char :=
  if t.micros = (0, 0) then "1970-01-01T00:00:00.000000Z".toList
  else signChar t ::
    (Nat.toDigits 10 t.timestamp.natAbs ++ ',' :: Nat.toDigits 10 (t.subsec / 1000))

theorem micros_of_epochText {a b : Rfc3339Timestamp} (h : epochText a = epochText b) :
    a.micros = b.micros := by
  unfold epochText at h
  split_ifs at h with ha hb hb
  · rw [ha, hb]
  · exact absurd h (epoch_ne_signed b _)
  · exact absurd h.symm (epoch_ne_signed a _)
  · obtain ⟨hs, h⟩ := List.cons.inj h
    obtain ⟨hn, hm⟩ := delimitedBy_toDigits _ _ _ _ _ _ (.inl rfl) (.inl rfl) h
    have hm' := toDigits_injective (List.cons.inj hm).2
    have hneg := signChar_inj hs
    exact Prod.ext (by simp only [Rfc3339Timestamp.micros]; omega) hm'

/-- `serde_json::to_vec`: the UTF-8 bytes of the compact text. -/
def jsonBytes (m : JsonMap) : List UInt8 := (String.ofList (renderObject m.entries)).toByteArray.data.toList

theorem jsonBytes_injective : Function.Injective jsonBytes := by
  intro a b h
  have hd : (String.ofList (renderObject a.entries)).toByteArray =
      (String.ofList (renderObject b.entries)).toByteArray :=
    ByteArray.ext (Array.toList_inj.mp h)
  exact SortedMap.entries_injective
    (renderObject_injective (String.ofList_inj.mp (String.toByteArray_inj.mp hd)))

/-- The crates with the printers above and a given hash and MAC. -/
def Crates.ofHash (hash : List UInt8 → Blake3Hash) (keyedHash : Key → List UInt8 → HmacSignature) :
    Crates where
  hash := hash
  keyedHash := keyedHash
  hyphenated := uuidText
  toRfc3339 := fun t => String.ofList (epochText t)
  toVec := fun m => some (jsonBytes m)
  hyphenated_injective := uuidText_injective
  micros_of_toRfc3339 := fun _ _ h => micros_of_epochText (String.ofList_inj.mp h)
  toVec_injective := by
    intro a b bs ha hb
    exact jsonBytes_injective (Option.some.inj (ha.trans hb.symm))
  toVec_isSome := fun _ => rfl

end MerkleVault.External
