import Mathlib

/-! # Base64

Standard Base64 with padding: three bytes are four digits of six bits, and a last group of one or two
bytes is filled up with padding characters.  The URL-safe alphabet has two other characters, here
without padding.

* `encode_digits`: the characters of an encoded text;
* `decode_encode`: decoding gives the bytes back;
* `decodeUrl_eq_some`: the URL-safe decoder accepts exactly the encoded texts. -/

namespace MerkleVault.Lib.Base64

/-- The character of a digit below 64. -/
def digit (n : ℕ) : Char :=
  if n < 26 then Char.ofNat (65 + n)
  else if n < 52 then Char.ofNat (71 + n)
  else if n < 62 then Char.ofNat (n - 4)
  else if n = 62 then '+'
  else '/'

/-- The digit that a character stands for. -/
def value (c : Char) : Option ℕ :=
  if 65 ≤ c.toNat ∧ c.toNat ≤ 90 then some (c.toNat - 65)
  else if 97 ≤ c.toNat ∧ c.toNat ≤ 122 then some (c.toNat - 71)
  else if 48 ≤ c.toNat ∧ c.toNat ≤ 57 then some (c.toNat + 4)
  else if c = '+' then some 62
  else if c = '/' then some 63
  else none

/-- A digit or padding. -/
def IsChar (c : Char) : Prop := (value c).isSome ∨ c = '='

instance (c : Char) : Decidable (IsChar c) := inferInstanceAs (Decidable (_ ∨ _))

/-- Groups of three bytes as four digits, the last one padded. -/
def encode : List UInt8 → List Char
  | [] => []
  | [a] => [digit (a.toNat / 4), digit (a.toNat % 4 * 16), '=', '=']
  | [a, b] => [digit (a.toNat / 4), digit (a.toNat % 4 * 16 + b.toNat / 16),
      digit (b.toNat % 16 * 4), '=']
  | a :: b :: c :: rest => digit (a.toNat / 4) :: digit (a.toNat % 4 * 16 + b.toNat / 16) ::
      digit (b.toNat % 16 * 4 + c.toNat / 64) :: digit (c.toNat % 64) :: encode rest

/-- The bytes of a group, padding left off; the bits under the padding are zero. -/
def decodeGroup (x y : ℕ) : Option ℕ → Option ℕ → Option (List UInt8)
  | none, none => if y % 16 = 0 then some [UInt8.ofNat (x * 4 + y / 16)] else none
  | some z, none => if z % 4 = 0 then
      some [UInt8.ofNat (x * 4 + y / 16), UInt8.ofNat (y % 16 * 16 + z / 4)] else none
  | some z, some w => some [UInt8.ofNat (x * 4 + y / 16), UInt8.ofNat (y % 16 * 16 + z / 4),
      UInt8.ofNat (z % 4 * 64 + w)]
  | none, some _ => none

/-- Only the last group has padding. -/
def decode : List Char → Option (List UInt8)
  | [] => some []
  | x :: y :: z :: w :: rest =>
    match value x, value y with
    | some x, some y =>
      if w = '=' then
        if rest ≠ [] then none
        else if z = '=' then decodeGroup x y none none
        else (value z).bind fun z => decodeGroup x y (some z) none
      else
        match value z, value w with
        | some z, some w => (decode rest).bind fun bytes =>
          (decodeGroup x y (some z) (some w)).map (· ++ bytes)
        | _, _ => none
    | _, _ => none
  | _ => none

theorem value_digit : ∀ n < 64, value (digit n) = some n := by decide

theorem digit_ne_pad : ∀ n < 64, digit n ≠ '=' := by decide

theorem isChar_digit {n : ℕ} (h : n < 64) : IsChar (digit n) := .inl (by rw [value_digit n h]; rfl)

theorem encode_digits (bytes : List UInt8) : ∀ c ∈ encode bytes, IsChar c := by
  have hpad : IsChar '=' := .inr rfl
  fun_induction encode bytes with
  | case1 => exact nofun
  | case2 a =>
    have ha := a.toNat_lt
    simp only [List.forall_mem_cons, List.not_mem_nil, false_imp_iff, implies_true, and_true]
    exact ⟨isChar_digit (by omega), isChar_digit (by omega), hpad, hpad⟩
  | case3 a b =>
    have ha := a.toNat_lt
    have hb := b.toNat_lt
    simp only [List.forall_mem_cons, List.not_mem_nil, false_imp_iff, implies_true, and_true]
    exact ⟨isChar_digit (by omega), isChar_digit (by omega), isChar_digit (by omega), hpad⟩
  | case4 a b c rest ih =>
    have ha := a.toNat_lt
    have hb := b.toNat_lt
    have hc := c.toNat_lt
    simp only [List.forall_mem_cons]
    exact ⟨isChar_digit (by omega), isChar_digit (by omega), isChar_digit (by omega),
      isChar_digit (by omega), ih⟩

/-- A byte is what its digits add up to. -/
theorem ofNat_eq {n : ℕ} {a : UInt8} (h : n = a.toNat) : UInt8.ofNat n = a := by
  rw [h, UInt8.ofNat_toNat]

/-- **Decoding gives the bytes back.** -/
theorem decode_encode (bytes : List UInt8) : decode (encode bytes) = some bytes := by
  fun_induction encode bytes with
  | case1 => rfl
  | case2 a =>
    have ha := a.toNat_lt
    have hy : a.toNat % 4 * 16 % 16 = 0 := by omega
    simp only [decode, value_digit _ (show a.toNat / 4 < 64 by omega),
      value_digit _ (show a.toNat % 4 * 16 < 64 by omega), if_true, ne_eq, not_true, if_false,
      decodeGroup, hy]
    rw [ofNat_eq (a := a) (by omega)]
  | case3 a b =>
    have ha := a.toNat_lt
    have hb := b.toNat_lt
    have hz : b.toNat % 16 * 4 % 4 = 0 := by omega
    simp only [decode, value_digit _ (show a.toNat / 4 < 64 by omega),
      value_digit _ (show a.toNat % 4 * 16 + b.toNat / 16 < 64 by omega),
      value_digit _ (show b.toNat % 16 * 4 < 64 by omega),
      digit_ne_pad _ (show b.toNat % 16 * 4 < 64 by omega), if_true, ne_eq, not_true, if_false,
      Option.bind_some, decodeGroup, hz]
    rw [ofNat_eq (a := a) (by omega), ofNat_eq (a := b) (by omega)]
  | case4 a b c rest ih =>
    have ha := a.toNat_lt
    have hb := b.toNat_lt
    have hc := c.toNat_lt
    simp only [decode, value_digit _ (show a.toNat / 4 < 64 by omega),
      value_digit _ (show a.toNat % 4 * 16 + b.toNat / 16 < 64 by omega),
      value_digit _ (show b.toNat % 16 * 4 + c.toNat / 64 < 64 by omega),
      value_digit _ (show c.toNat % 64 < 64 by omega),
      digit_ne_pad _ (show c.toNat % 64 < 64 by omega), if_false, ih, Option.bind_some, decodeGroup,
      Option.map_some, List.cons_append, List.nil_append]
    rw [ofNat_eq (a := a) (by omega), ofNat_eq (a := b) (by omega), ofNat_eq (a := c) (by omega)]

/-! ### The URL-safe alphabet, without padding -/

/-- The symbol of the URL alphabet. -/
def urlChar (c : Char) : Char := if c = '+' then '-' else if c = '/' then '_' else c

/-- The symbol of the standard alphabet. -/
def standardChar (c : Char) : Char := if c = '-' then '+' else if c = '_' then '/' else c

/-- The URL alphabet without padding. -/
def encodeUrl (bytes : List UInt8) : List Char := ((encode bytes).filter (· ≠ '=')).map urlChar

/-- Fill up the last group. -/
def padded (cs : List Char) : List Char := cs ++ List.replicate ((4 - cs.length % 4) % 4) '='

/-- A text that is not what its bytes encode to has padding or characters of the other alphabet. -/
def decodeUrl (cs : List Char) : Option (List UInt8) :=
  (decode (padded (cs.map standardChar))).filter fun bytes => encodeUrl bytes = cs

theorem standardChar_urlChar {c : Char} (h : IsChar c) : standardChar (urlChar c) = c := by
  unfold standardChar urlChar
  by_cases hplus : c = '+'
  · rw [if_pos hplus, if_pos rfl, hplus]
  · rw [if_neg hplus]
    by_cases hslash : c = '/'
    · rw [if_pos hslash, hslash]
      rfl
    · have hminus : c ≠ '-' := by
        rintro rfl
        exact absurd h (by decide)
      have hlow : c ≠ '_' := by
        rintro rfl
        exact absurd h (by decide)
      rw [if_neg hslash, if_neg hminus, if_neg hlow]

theorem padded_filter (bytes : List UInt8) : padded ((encode bytes).filter (· ≠ '=')) = encode bytes := by
  have hkeep : ∀ {n : ℕ} (cs : List Char), n < 64 →
      (digit n :: cs).filter (· ≠ '=') = digit n :: cs.filter (· ≠ '=') := fun cs hn =>
    List.filter_cons_of_pos (by simpa using digit_ne_pad _ hn)
  fun_induction encode bytes with
  | case1 => rfl
  | case2 a =>
    have ha := a.toNat_lt
    rw [hkeep _ (by omega), hkeep _ (by omega)]
    rfl
  | case3 a b =>
    have ha := a.toNat_lt
    have hb := b.toNat_lt
    rw [hkeep _ (by omega), hkeep _ (by omega), hkeep _ (by omega)]
    rfl
  | case4 a b c rest ih =>
    have ha := a.toNat_lt
    have hb := b.toNat_lt
    have hc := c.toNat_lt
    rw [hkeep _ (by omega), hkeep _ (by omega), hkeep _ (by omega), hkeep _ (by omega)]
    unfold padded at ih ⊢
    have hlength : ∀ n : ℕ, (4 - (n + 1 + 1 + 1 + 1) % 4) % 4 = (4 - n % 4) % 4 := by omega
    simp only [List.length_cons, hlength, List.cons_append, ih]

theorem standard_encodeUrl (bytes : List UInt8) :
    padded ((encodeUrl bytes).map standardChar) = encode bytes := by
  have hback : (encodeUrl bytes).map standardChar = (encode bytes).filter (· ≠ '=') := by
    unfold encodeUrl
    rw [List.map_map]
    refine (List.map_congr_left fun c hc => ?_).trans (List.map_id _)
    exact standardChar_urlChar (encode_digits bytes c (List.mem_of_mem_filter hc))
  rw [hback, padded_filter]

/-- **The URL-safe decoder accepts exactly the encoded texts.** -/
theorem decodeUrl_eq_some {cs : List Char} {bytes : List UInt8} :
    decodeUrl cs = some bytes ↔ cs = encodeUrl bytes := by
  unfold decodeUrl
  rw [Option.filter_eq_some_iff, decide_eq_true_eq]
  constructor
  · rintro ⟨-, h⟩
    exact h.symm
  · rintro rfl
    exact ⟨by rw [standard_encodeUrl, decode_encode], rfl⟩

theorem encodeUrl_injective {a b : List UInt8} (h : encodeUrl a = encodeUrl b) : a = b :=
  Option.some.inj ((decodeUrl_eq_some.mpr h).symm.trans (decodeUrl_eq_some.mpr rfl)).symm

/-- A character that neither alphabet has is in no encoded text. -/
theorem notMem_encodeUrl {c : Char} (h : ¬IsChar c) (hminus : c ≠ '-') (hlow : c ≠ '_')
    (bytes : List UInt8) : c ∉ encodeUrl bytes := by
  unfold encodeUrl
  intro hc
  obtain ⟨d, hd, rfl⟩ := List.mem_map.mp hc
  have hchar := encode_digits bytes d (List.mem_of_mem_filter hd)
  unfold urlChar at h hminus hlow
  split_ifs at h hminus hlow with hplus hslash
  · exact hminus rfl
  · exact hlow rfl
  · exact h hchar

end MerkleVault.Lib.Base64
