import Mathlib

/-! # ASCII Texts

The UTF-8 bytes of a text of ASCII characters are the codes of its characters.

* `utf8_ascii`: the bytes;
* `ofCodes_codes`: the characters back from the codes. -/

namespace MerkleVault.Lib.Ascii

/-- The codes of characters below 256. -/
def codes (cs : List Char) : List UInt8 := cs.map fun c => UInt8.ofNat c.toNat

/-- The characters of codes. -/
def ofCodes (bytes : List UInt8) : List Char := bytes.map fun b => Char.ofNat b.toNat

@[simp] theorem codes_append (cs ds : List Char) : codes (cs ++ ds) = codes cs ++ codes ds :=
  List.map_append

@[simp] theorem codes_cons (c : Char) (cs : List Char) :
    codes (c :: cs) = UInt8.ofNat c.toNat :: codes cs := rfl

@[simp] theorem length_codes (cs : List Char) : (codes cs).length = cs.length := List.length_map _

/-- Every character is below 128. -/
def IsAscii (cs : List Char) : Prop := ∀ c ∈ cs, c.toNat < 128

instance (cs : List Char) : Decidable (IsAscii cs) :=
  inferInstanceAs (Decidable (∀ c ∈ cs, c.toNat < 128))

theorem utf8EncodeChar_ascii {c : Char} (h : c.toNat < 128) :
    String.utf8EncodeChar c = [UInt8.ofNat c.toNat] := by
  have hle : ¬127 < c.toNat := by omega
  simp [String.utf8EncodeChar, hle]

theorem utf8_eq (text : String) :
    text.toUTF8.data.toList = text.toList.flatMap String.utf8EncodeChar := by
  have hlist : text = String.ofList text.toList := by simp
  rw [hlist, String.toUTF8_eq_toByteArray, String.toByteArray_ofList]
  simp [List.utf8Encode]

theorem utf8_injective : Function.Injective fun text : String => text.toUTF8.data.toList := by
  intro s t h
  have hdata : s.toUTF8.data = t.toUTF8.data := Array.toList_inj.mp h
  have hbytes : s.toByteArray = t.toByteArray := ByteArray.ext hdata
  exact String.toByteArray_inj.mp hbytes

/-- **An ASCII text has one byte for each character.** -/
theorem utf8_ascii {text : String} (h : IsAscii text.toList) :
    text.toUTF8.data.toList = codes text.toList := by
  rw [utf8_eq, List.flatMap_congr fun c hc => utf8EncodeChar_ascii (h c hc)]
  exact List.flatMap_pure_eq_map _ _

theorem ofCodes_codes {cs : List Char} (h : IsAscii cs) : ofCodes (codes cs) = cs := by
  rw [ofCodes, codes, List.map_map]
  refine (List.map_congr_left fun c hc => ?_).trans (List.map_id _)
  have hc := h c hc
  rw [Function.comp_apply, UInt8.toNat_ofNat', Nat.mod_eq_of_lt (by omega), Char.ofNat_toNat, id]

/-- The bytes of a text are read back. -/
theorem fromUTF8?_toUTF8 (s : String) : String.fromUTF8? s.toUTF8 = some s := by
  unfold String.fromUTF8?
  rw [String.toUTF8_eq_toByteArray, dif_pos s.isValidUTF8]
  rfl

end MerkleVault.Lib.Ascii
