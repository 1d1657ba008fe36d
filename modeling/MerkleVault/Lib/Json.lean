import MerkleVault.Lib.Encoding
import Mathlib

/-! # Compact JSON Texts of Flat Objects

The compact JSON text of an object whose members are strings, natural numbers and nulls, with the
string escapes of RFC 8259 in their short forms and `\u00XX` for the other control characters.  A text
determines its object: escapes are read back one at a time, strings end at an unescaped quote, and
a number ends where a digit does not follow. -/

namespace MerkleVault.Lib.Json

open MerkleVault.Lib.Encoding

/-- A member's value. -/
inductive Scalar
  | string (s : String)
  | number (n : Nat)
  | null
deriving DecidableEq

/-- The hexadecimal digit of a number below sixteen. -/
def hexDigit (n : Nat) : Char := if n < 10 then Char.ofNat (48 + n) else Char.ofNat (87 + n)

/-- The number of a hexadecimal digit. -/
def hexValue (c : Char) : Nat := if c.toNat < 58 then c.toNat - 48 else c.toNat - 87

theorem hexValue_hexDigit {n : Nat} (h : n < 16) : hexValue (hexDigit n) = n := by
  have : ∀ m : Fin 16, hexValue (hexDigit m) = m := by decide
  exact this ⟨n, h⟩

/-- The escape of one character. -/
def escapeChar (c : Char) : List Char :=
  if c = '"' then ['\\', '"']
  else if c = '\\' then ['\\', '\\']
  else if c = '\x08' then ['\\', 'b']
  else if c = '\x0c' then ['\\', 'f']
  else if c = '\n' then ['\\', 'n']
  else if c = '\r' then ['\\', 'r']
  else if c = '\t' then ['\\', 't']
  else if c.toNat < 32 then
    ['\\', 'u', '0', '0', hexDigit (c.toNat / 16), hexDigit (c.toNat % 16)]
  else [c]

/-- Read one escaped character off the front. -/
def unescape : List Char → Option (Char × List Char)
  | '\\' :: '"' :: r => some ('"', r)
  | '\\' :: '\\' :: r => some ('\\', r)
  | '\\' :: 'b' :: r => some ('\x08', r)
  | '\\' :: 'f' :: r => some ('\x0c', r)
  | '\\' :: 'n' :: r => some ('\n', r)
  | '\\' :: 'r' :: r => some ('\r', r)
  | '\\' :: 't' :: r => some ('\t', r)
  | '\\' :: 'u' :: '0' :: '0' :: h :: l :: r => some (Char.ofNat (16 * hexValue h + hexValue l), r)
  | '\\' :: _ => none
  | c :: r => some (c, r)
  | [] => none

theorem unescape_escapeChar (c : Char) (r : List Char) :
    unescape (escapeChar c ++ r) = some (c, r) := by
  unfold escapeChar
  split_ifs with h1 h2 h3 h4 h5 h6 h7 h8
  · subst h1; rfl
  · subst h2; rfl
  · subst h3; rfl
  · subst h4; rfl
  · subst h5; rfl
  · subst h6; rfl
  · subst h7; rfl
  · simp only [List.cons_append, List.nil_append, unescape]
    rw [hexValue_hexDigit (by omega), hexValue_hexDigit (by omega), Nat.div_add_mod,
      Char.ofNat_toNat]
  · simp only [List.cons_append, List.nil_append]
    unfold unescape
    split <;> simp_all

theorem selfDelimiting_escapeChar : SelfDelimiting escapeChar :=
  SelfDelimiting.of_decode unescape unescape_escapeChar

theorem escapeChar_head (c : Char) : ∃ x t, escapeChar c = x :: t ∧ x ≠ '"' := by
  unfold escapeChar
  split_ifs with h1
  all_goals first
    | exact ⟨_, _, rfl, by decide⟩
    | exact ⟨_, _, rfl, h1⟩

/-- The text of a string between its quotes, with the closing quote. -/
def stringBody (s : List Char) : List Char := s.flatMap escapeChar ++ ['"']

theorem selfDelimiting_stringBody : SelfDelimiting stringBody :=
  selfDelimiting_flatMap selfDelimiting_escapeChar escapeChar_head

/-- The text of a member's value. -/
def renderScalar : Scalar → List Char
  | .string s => '"' :: stringBody s.toList
  | .number n => Nat.toDigits 10 n
  | .null => ['n', 'u', 'l', 'l']

/-- The symbols that may follow a member's value. -/
def afterValue : Set Char := {c | c = ',' ∨ c = '}'}

theorem isDigit_of_mem_toDigits {n : Nat} {c : Char} (h : c ∈ Nat.toDigits 10 n) :
    c.isDigit = true :=
  Nat.isDigit_of_mem_toDigits (by norm_num) (by norm_num) h

theorem toDigits_injective : Function.Injective (Nat.toDigits 10) := by
  intro a b h
  have := congrArg (fun ds => Nat.ofDigitChars 10 ds 0) h
  simpa using this

theorem delimitedBy_toDigits : DelimitedBy afterValue (Nat.toDigits 10) := by
  refine delimitedBy_of_notMem toDigits_injective ?_
  intro n c hc hD
  have hd := isDigit_of_mem_toDigits hc
  rcases hD with rfl | rfl
  · exact absurd hd (by decide)
  · exact absurd hd (by decide)

theorem toDigits_head (n : Nat) : ∃ x t, Nat.toDigits 10 n = x :: t ∧ x.isDigit = true := by
  have hne : Nat.toDigits 10 n ≠ [] := Nat.toDigits_ne_nil
  obtain ⟨x, t, hx⟩ := List.exists_cons_of_ne_nil hne
  exact ⟨x, t, hx, isDigit_of_mem_toDigits (n := n) (by rw [hx]; exact List.mem_cons_self)⟩

/-- A text that starts with no digit is not that of a number. -/
theorem toDigits_append_ne {n : Nat} {c : Char} {r s : List Char} (hc : c.isDigit = false) :
    Nat.toDigits 10 n ++ r ≠ c :: s := by
  obtain ⟨x, t, hx, hdigit⟩ := toDigits_head n
  intro h
  rw [hx, List.cons_append, List.cons.injEq] at h
  rw [h.1, hc] at hdigit
  cases hdigit

theorem delimitedBy_renderScalar : DelimitedBy afterValue renderScalar := by
  intro a b x y r s hx hy he
  cases a with
  | string u =>
    cases b with
    | string v =>
      simp only [renderScalar, List.cons_append, List.cons.injEq, true_and] at he
      obtain ⟨huv, hrs⟩ := selfDelimiting_stringBody _ _ _ _ he
      exact ⟨congrArg Scalar.string (String.toList_inj.mp huv), hrs⟩
    | number n => exact absurd he.symm (toDigits_append_ne (by decide))
    | null =>
      simp only [renderScalar, List.cons_append, List.cons.injEq] at he
      exact absurd he.1 (by decide)
  | number m =>
    cases b with
    | string v => exact absurd he (toDigits_append_ne (by decide))
    | number n =>
      obtain ⟨rfl, hrs⟩ := delimitedBy_toDigits _ _ _ _ _ _ hx hy he
      exact ⟨rfl, hrs⟩
    | null => exact absurd he (toDigits_append_ne (by decide))
  | null =>
    cases b with
    | string v =>
      simp only [renderScalar, List.cons_append, List.cons.injEq] at he
      exact absurd he.1 (by decide)
    | number n => exact absurd he.symm (toDigits_append_ne (by decide))
    | null =>
      simp only [renderScalar, List.cons_append, List.nil_append, List.cons.injEq, true_and] at he
      obtain ⟨rfl, rfl⟩ := he
      exact ⟨rfl, rfl⟩

/-- A member `"key":value`. -/
def renderMember (m : String × Scalar) : List Char :=
  '"' :: stringBody m.1.toList ++ ':' :: renderScalar m.2

theorem delimitedBy_renderMember : DelimitedBy afterValue renderMember := by
  rintro ⟨k, v⟩ ⟨k', v'⟩ x y r s hx hy he
  simp only [renderMember, List.append_assoc, List.cons_append, List.cons.injEq, true_and] at he
  obtain ⟨hk, he'⟩ := selfDelimiting_stringBody _ _ _ _ he
  simp only [List.cons.injEq, true_and] at he'
  obtain ⟨hv, hrs⟩ := delimitedBy_renderScalar _ _ _ _ _ _ hx hy he'
  exact ⟨Prod.ext (String.toList_inj.mp hk) hv, hrs⟩

/-- The members after the first, and the closing brace. -/
def renderTail : List (String × Scalar) → List Char
  | [] => ['}']
  | m :: ms => ',' :: (renderMember m ++ renderTail ms)

theorem renderTail_head (ms : List (String × Scalar)) :
    ∃ x t, renderTail ms = x :: t ∧ x ∈ afterValue := by
  cases ms with
  | nil => exact ⟨_, _, rfl, .inr rfl⟩
  | cons m ms => exact ⟨_, _, rfl, .inl rfl⟩

theorem member_append_tail_inj {m m' : String × Scalar} {ms ms' : List (String × Scalar)}
    (h : renderMember m ++ renderTail ms = renderMember m' ++ renderTail ms') :
    m = m' ∧ renderTail ms = renderTail ms' := by
  obtain ⟨x, t, ht, hx⟩ := renderTail_head ms
  obtain ⟨y, u, hu, hy⟩ := renderTail_head ms'
  rw [ht, hu] at h ⊢
  exact delimitedBy_renderMember _ _ _ _ _ _ hx hy h

theorem renderTail_injective : Function.Injective renderTail := by
  intro ms
  induction ms with
  | nil =>
    intro ms' h
    cases ms' with
    | nil => rfl
    | cons m ms' =>
      simp only [renderTail, List.cons.injEq] at h
      exact absurd h.1 (by decide)
  | cons m ms ih =>
    intro ms' h
    cases ms' with
    | nil =>
      simp only [renderTail, List.cons.injEq] at h
      exact absurd h.1 (by decide)
    | cons m' ms' =>
      obtain ⟨rfl, ht⟩ := member_append_tail_inj (List.cons.inj h).2
      rw [ih ht]

/-- The compact text of an object. -/
def renderObject : List (String × Scalar) → List Char
  | [] => ['{', '}']
  | m :: ms => '{' :: (renderMember m ++ renderTail ms)

/-- **A compact text determines its object.** -/
theorem renderObject_injective : Function.Injective renderObject := by
  intro ms ms' h
  cases ms with
  | nil =>
    cases ms' with
    | nil => rfl
    | cons m' ms' =>
      simp only [renderObject, renderMember, List.cons_append, List.cons.injEq] at h
      exact absurd h.2.1 (by decide)
  | cons m ms =>
    cases ms' with
    | nil =>
      simp only [renderObject, renderMember, List.cons_append, List.cons.injEq] at h
      exact absurd h.2.1 (by decide)
    | cons m' ms' =>
      obtain ⟨rfl, ht⟩ := member_append_tail_inj (List.cons.inj h).2
      rw [renderTail_injective ht]

end MerkleVault.Lib.Json
