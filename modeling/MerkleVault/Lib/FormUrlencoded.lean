import MerkleVault.Lib.Ascii

/-! # Query Strings

`key=value` texts with `&` between, and the percent-encoding of their values: every byte but the
ASCII letters and digits is written as `%` and two hexadecimal digits.

* `parse_render`: the pairs are read back, each part decoded;
* `percentDecode_percentEncode`: the bytes are read back;
* `decodeText_encodeText`: so are texts. -/

namespace MerkleVault.Lib.FormUrlencoded

open MerkleVault.Lib.Ascii

/-! ### Pairs -/

/-- A key and its value, as they stand in the query. -/
def segment (p : List Char × List Char) : List Char := p.1 ++ '=' :: p.2

/-- The pairs with `&` between. -/
def render (ps : List (List Char × List Char)) : List Char := ['&'].intercalate (ps.map segment)

/-- Cut at the first `=`; the value is empty when there is none. -/
def cutAtEquals (s : List Char) : List Char × List Char :=
  (s.takeWhile (· ≠ '='), (s.dropWhile (· ≠ '=')).tail)

/-- Empty segments are skipped, keys and values decoded. -/
def parse {α : Type*} (decode : List Char → α) (cs : List Char) : List (α × α) :=
  ((cs.splitOn '&').filter (· ≠ [])).map fun s => (cutAtEquals s).map decode decode

section Pairs

variable {p : List Char × List Char}

theorem cutAtEquals_segment (h : '=' ∉ p.1) : cutAtEquals (segment p) = p := by
  have hall : ∀ c ∈ p.1, decide (c ≠ '=') = true := by
    intro c hc
    rw [decide_eq_true_eq]
    rintro rfl
    exact h hc
  unfold cutAtEquals segment
  rw [List.takeWhile_append_of_pos hall, List.dropWhile_append_of_pos hall]
  simp

theorem segment_ne_nil : segment p ≠ [] := by simp [segment]

/-- A pair more at the end. -/
theorem render_concat {ps : List (List Char × List Char)} (h : ps ≠ []) :
    render (ps ++ [p]) = render ps ++ '&' :: segment p := by
  induction ps with
  | nil => exact absurd rfl h
  | cons q ps ih =>
    by_cases hps : ps = []
    · subst hps
      simp [render, List.intercalate]
    · have hq : ∀ l : List (List Char × List Char), l ≠ [] →
          render (q :: l) = segment q ++ '&' :: render l := by
        intro l hl
        rw [render, List.map_cons, List.intercalate_cons_of_ne_nil (by simpa using hl)]
        simp [render]
      rw [List.cons_append, hq _ (by simp), ih hps, hq ps hps]
      simp

/-- No separator inside a segment. -/
structure Plain (p : List Char × List Char) : Prop where
  key : '&' ∉ p.1
  equals : '=' ∉ p.1
  value : '&' ∉ p.2

theorem Plain.notMem_segment (h : Plain p) : '&' ∉ segment p := by
  simp [segment, h.key, h.value]

/-- **The pairs are read back**, each part decoded. -/
theorem parse_render {α : Type*} (decode : List Char → α) {ps : List (List Char × List Char)}
    (hne : ps ≠ []) (h : ∀ p ∈ ps, Plain p) :
    parse decode (render ps) = ps.map (Prod.map decode decode) := by
  have hsplit : (render ps).splitOn '&' = ps.map segment := by
    refine List.splitOn_intercalate '&' ?_ (by simpa using hne)
    intro s hs
    obtain ⟨p, hp, rfl⟩ := List.mem_map.mp hs
    exact (h p hp).notMem_segment
  have hfilter : (ps.map segment).filter (· ≠ []) = ps.map segment := by
    rw [List.filter_eq_self]
    intro s hs
    obtain ⟨p, -, rfl⟩ := List.mem_map.mp hs
    exact decide_eq_true segment_ne_nil
  rw [parse, hsplit, hfilter, List.map_map]
  exact List.map_congr_left fun p hp => congrArg _ (cutAtEquals_segment (h p hp).equals)

end Pairs

/-! ### Percent-encoding -/

/-- An uppercase hexadecimal digit. -/
def hexUpper (n : ℕ) : Char := Char.ofNat (if n < 10 then 48 + n else 55 + n)

/-- The value of a hexadecimal digit, of either case. -/
def hexValue (c : Char) : Option ℕ :=
  if '0' ≤ c ∧ c ≤ '9' then some (c.toNat - 48)
  else if 'A' ≤ c ∧ c ≤ 'F' then some (c.toNat - 55)
  else if 'a' ≤ c ∧ c ≤ 'f' then some (c.toNat - 87)
  else none

/-- A letter or digit, or the two digits of its code. -/
def encodeByte (b : UInt8) : List Char :=
  if (Char.ofNat b.toNat).isAlphanum then [Char.ofNat b.toNat]
  else ['%', hexUpper (b.toNat / 16), hexUpper (b.toNat % 16)]

/-- The bytes, each encoded. -/
def percentEncode (bytes : List UInt8) : List Char := bytes.flatMap encodeByte

/-- A `%` without two digits stands for itself, a `+` for a space. -/
def percentDecode : List Char → List UInt8
  | [] => []
  | '%' :: hi :: lo :: rest =>
    match hexValue hi, hexValue lo with
    | some h, some l => UInt8.ofNat (16 * h + l) :: percentDecode rest
    | _, _ => 37 :: percentDecode (hi :: lo :: rest)
  | '+' :: rest => 32 :: percentDecode rest
  | c :: rest => UInt8.ofNat c.toNat :: percentDecode rest

theorem hexValue_hexUpper : ∀ n < 16, hexValue (hexUpper n) = some n := by decide

theorem hexUpper_alphanum : ∀ n < 16, (hexUpper n).isAlphanum = true := by decide

theorem percentDecode_cons {c : Char} (hp : c ≠ '%') (ha : c ≠ '+') (rest : List Char) :
    percentDecode (c :: rest) = UInt8.ofNat c.toNat :: percentDecode rest := by
  rw [percentDecode.eq_def]
  split <;> simp_all

theorem percentDecode_encodeByte (b : UInt8) (rest : List Char) :
    percentDecode (encodeByte b ++ rest) = b :: percentDecode rest := by
  have hb := b.toNat_lt
  unfold encodeByte
  split_ifs with h
  · have hne : ∀ c : Char, c.isAlphanum = false → Char.ofNat b.toNat ≠ c := by
      rintro c hc rfl
      rw [h] at hc
      cases hc
    have hcode : (Char.ofNat b.toNat).toNat = b.toNat := by
      rw [Char.ofNat, dif_pos (Or.inl (by omega))]
      rfl
    rw [List.singleton_append, percentDecode_cons (hne '%' rfl) (hne '+' rfl), hcode,
      UInt8.ofNat_toNat]
  · have hsum : 16 * (b.toNat / 16) + b.toNat % 16 = b.toNat := by omega
    show percentDecode ('%' :: hexUpper (b.toNat / 16) :: hexUpper (b.toNat % 16) :: rest) = _
    rw [percentDecode, hexValue_hexUpper _ (by omega), hexValue_hexUpper _ (by omega)]
    simp only [hsum, UInt8.ofNat_toNat]

/-- **The bytes are read back.** -/
theorem percentDecode_percentEncode (bytes : List UInt8) :
    percentDecode (percentEncode bytes) = bytes := by
  induction bytes with
  | nil => rfl
  | cons b bytes ih =>
    rw [percentEncode, List.flatMap_cons, percentDecode_encodeByte]
    exact congrArg (b :: ·) ih

/-- Only letters, digits and `%` are written. -/
theorem mem_percentEncode {bytes : List UInt8} {c : Char} (h : c ∈ percentEncode bytes) :
    c.isAlphanum = true ∨ c = '%' := by
  obtain ⟨b, -, hc⟩ := List.mem_flatMap.mp h
  have hb := b.toNat_lt
  unfold encodeByte at hc
  split_ifs at hc with halnum
  · rw [List.mem_singleton.mp hc]
    exact .inl halnum
  · simp only [List.mem_cons, List.not_mem_nil, or_false] at hc
    rcases hc with rfl | rfl | rfl
    · exact .inr rfl
    · exact .inl (hexUpper_alphanum _ (by omega))
    · exact .inl (hexUpper_alphanum _ (by omega))

/-- Texts without `%` and `+` stand for their codes. -/
theorem percentDecode_plain {cs : List Char} (hp : '%' ∉ cs) (ha : '+' ∉ cs) :
    percentDecode cs = codes cs := by
  induction cs with
  | nil => rfl
  | cons c cs ih =>
    simp only [List.mem_cons, not_or] at hp ha
    rw [percentDecode_cons (Ne.symm hp.1) (Ne.symm ha.1), ih hp.2 ha.2, codes_cons]

/-! ### Texts -/

/-- The bytes of a text, encoded. -/
def encodeText (s : String) : String := String.ofList (percentEncode s.toUTF8.data.toList)

/-- The text whose bytes are decoded; a text that stands for no text is left as it is. -/
def decodeText (s : String) : String :=
  (String.fromUTF8? ⟨(percentDecode s.toList).toArray⟩).getD s

/-- **Texts are read back.** -/
theorem decodeText_encodeText (s : String) : decodeText (encodeText s) = s := by
  rw [decodeText, encodeText, String.toList_ofList, percentDecode_percentEncode,
    show (⟨s.toUTF8.data.toList.toArray⟩ : ByteArray) = s.toUTF8 from rfl, fromUTF8?_toUTF8]
  rfl

theorem decodeText_plain {s : String} (hascii : IsAscii s.toList) (hp : '%' ∉ s.toList)
    (ha : '+' ∉ s.toList) : decodeText s = s := by
  rw [decodeText, percentDecode_plain hp ha, ← utf8_ascii hascii,
    show (⟨s.toUTF8.data.toList.toArray⟩ : ByteArray) = s.toUTF8 from rfl, fromUTF8?_toUTF8]
  rfl

end MerkleVault.Lib.FormUrlencoded
