import MerkleVault.Lib.Ascii
import Mathlib

/-! # Numbers in Fields of Fixed Width

Decimal numbers with leading zeros, in fields of given widths with a separator after each.  Texts of
one shape compare, byte by byte, as the lists of their numbers do.

* `digits_lt_iff`: one field;
* `fields_lt_iff`: a text of fields;
* `readFields_fields`: the numbers are read back from it. -/

namespace MerkleVault.Lib.FixedWidth

open MerkleVault.Lib.Ascii

/-- The last `w` decimal digits of a number. -/
def digits : ℕ → ℕ → List Char
  | 0, _ => []
  | w + 1, n => Char.ofNat (48 + n / 10 ^ w % 10) :: digits w n

/-- The numbers in fields of the given widths, each with its separator. -/
def fields : List (ℕ × Char) → List ℕ → List Char
  | (w, sep) :: shape, n :: ns => digits w n ++ sep :: fields shape ns
  | _, _ => []

example : fields [(4, '-'), (2, '-'), (2, 'T')] [1970, 1, 1] = "1970-01-01T".toList := by decide

@[simp] theorem length_digits (w n : ℕ) : (digits w n).length = w := by
  induction w with
  | zero => rfl
  | succ w ih => rw [digits, List.length_cons, ih]

/-- The code of a digit. -/
theorem digit_code : ∀ d < 10, UInt8.ofNat (Char.ofNat (48 + d)).toNat = UInt8.ofNat (48 + d) := by
  decide

theorem digit_ascii : ∀ d < 10, (Char.ofNat (48 + d)).toNat < 128 := by decide

theorem digit_lt_iff {d e : ℕ} (hd : d < 10) (he : e < 10) :
    UInt8.ofNat (48 + d) < UInt8.ofNat (48 + e) ↔ d < e := by
  rw [UInt8.lt_iff_toNat_lt, UInt8.toNat_ofNat', UInt8.toNat_ofNat']
  omega

theorem digit_inj {d e : ℕ} (hd : d < 10) (he : e < 10) :
    UInt8.ofNat (48 + d) = UInt8.ofNat (48 + e) ↔ d = e := by
  rw [← UInt8.toNat_inj, UInt8.toNat_ofNat', UInt8.toNat_ofNat']
  omega

/-- A number below `10 ^ (w + 1)`, by its first digit and the others. -/
theorem mod_pow_succ (w n : ℕ) : n % 10 ^ (w + 1) = n / 10 ^ w % 10 * 10 ^ w + n % 10 ^ w := by
  rw [Nat.pow_succ, Nat.mod_mul, Nat.add_comm, Nat.mul_comm]

/-- Numbers over a base compare by their leading parts first. -/
theorem lead_lt_iff {p a b x y : ℕ} (hx : x < p) (hy : y < p) :
    a * p + x < b * p + y ↔ a < b ∨ a = b ∧ x < y := by
  rcases Nat.lt_trichotomy a b with h | rfl | h
  · have hle : (a + 1) * p ≤ b * p := Nat.mul_le_mul_right p h
    rw [Nat.add_mul] at hle
    refine iff_of_true ?_ (.inl h)
    omega
  · simp
  · have hle : (b + 1) * p ≤ a * p := Nat.mul_le_mul_right p h
    rw [Nat.add_mul] at hle
    refine iff_of_false ?_ ?_ <;> omega

theorem lead_inj {p a b x y : ℕ} (hx : x < p) (hy : y < p) :
    a * p + x = b * p + y ↔ a = b ∧ x = y := by
  have hlt := lead_lt_iff (a := a) (b := b) hx hy
  have hgt := lead_lt_iff (a := b) (b := a) hy hx
  constructor
  · intro h
    rw [h] at hlt hgt
    simp only [Nat.lt_irrefl, false_iff, not_or, not_and] at hlt hgt
    omega
  · rintro ⟨rfl, rfl⟩
    rfl

section Digits

variable {w n m : ℕ}

theorem lead_digit_lt (w k : ℕ) : k / 10 ^ w % 10 < 10 := Nat.mod_lt _ (by decide)

theorem low_digits_lt (w k : ℕ) : k % 10 ^ w < 10 ^ w := Nat.mod_lt _ (Nat.pow_pos (by decide))

/-- Equal digits are equal numbers. -/
theorem digits_inj : codes (digits w n) = codes (digits w m) ↔ n % 10 ^ w = m % 10 ^ w := by
  induction w with
  | zero => simp [digits, Nat.mod_one]
  | succ w ih =>
    have hn := lead_digit_lt w n
    have hm := lead_digit_lt w m
    rw [digits, digits, codes_cons, codes_cons, digit_code _ hn, digit_code _ hm, List.cons.injEq,
      digit_inj hn hm, ih, mod_pow_succ, mod_pow_succ,
      lead_inj (low_digits_lt w n) (low_digits_lt w m)]

/-- **One field**: the digits compare as the numbers. -/
theorem digits_lt_iff : codes (digits w n) < codes (digits w m) ↔ n % 10 ^ w < m % 10 ^ w := by
  induction w with
  | zero => simp [digits, Nat.mod_one]
  | succ w ih =>
    have hn := lead_digit_lt w n
    have hm := lead_digit_lt w m
    rw [digits, digits, codes_cons, codes_cons, digit_code _ hn, digit_code _ hm,
      List.cons_lt_cons_iff, digit_lt_iff hn hm, digit_inj hn hm, ih, mod_pow_succ, mod_pow_succ,
      lead_lt_iff (low_digits_lt w n) (low_digits_lt w m)]

end Digits

theorem digits_ascii (w n : ℕ) : IsAscii (digits w n) := by
  induction w with
  | zero => exact nofun
  | succ w ih => exact List.forall_mem_cons.mpr ⟨digit_ascii _ (lead_digit_lt w n), ih⟩

/-- A text of fields is ASCII when its separators are. -/
theorem fields_ascii {shape : List (ℕ × Char)} (h : ∀ s ∈ shape, s.2.toNat < 128) (ns : List ℕ) :
    IsAscii (fields shape ns) := by
  induction shape generalizing ns with
  | nil => exact nofun
  | cons s shape ih =>
    cases ns with
    | nil => exact nofun
    | cons n ns =>
      obtain ⟨hs, hshape⟩ := List.forall_mem_cons.mp h
      exact List.forall_mem_append.mpr
        ⟨digits_ascii _ _, List.forall_mem_cons.mpr ⟨hs, ih hshape ns⟩⟩

/-- Texts after equally long ones. -/
theorem append_lt_iff {α : Type*} [LT α] {u u' v v' : List α} (h : u.length = u'.length) :
    u ++ v < u' ++ v' ↔ u < u' ∨ u = u' ∧ v < v' := by
  induction u generalizing u' with
  | nil =>
    obtain rfl := List.length_eq_zero_iff.mp h.symm
    simp
  | cons a u ih =>
    cases u' with
    | nil => cases h
    | cons a' u' =>
      rw [List.cons_append, List.cons_append, List.cons_lt_cons_iff, List.cons_lt_cons_iff,
        ih (Nat.succ.inj h), List.cons.injEq]
      tauto

/-- Each number fits its field. -/
def Fits (shape : List (ℕ × Char)) (ns : List ℕ) : Prop :=
  List.Forall₂ (fun s n => n < 10 ^ s.1) shape ns

/-- **A text of fields** compares as the list of its numbers. -/
theorem fields_lt_iff {shape : List (ℕ × Char)} {ns ms : List ℕ} (hn : Fits shape ns)
    (hm : Fits shape ms) : codes (fields shape ns) < codes (fields shape ms) ↔ ns < ms := by
  induction hn generalizing ms with
  | nil =>
    cases hm
    exact iff_of_false (List.lt_irrefl _) (List.lt_irrefl _)
  | @cons s n shape ns hlt hns ih =>
    cases hm with
    | @cons _ m _ ms hlt' hms =>
      have hlen : (codes (digits s.1 n)).length = (codes (digits s.1 m)).length := by simp
      rw [fields, fields, codes_append, codes_append, append_lt_iff hlen, digits_lt_iff, digits_inj,
        Nat.mod_eq_of_lt hlt, Nat.mod_eq_of_lt hlt', codes_cons, codes_cons, List.cons_lt_cons_iff,
        ih hms, List.cons_lt_cons_iff]
      simp

/-! ### Reading -/

/-- The number of the first `w` digits, and the text after them. -/
def readDigits : ℕ → List Char → Option (ℕ × List Char)
  | 0, cs => some (0, cs)
  | _ + 1, [] => none
  | w + 1, c :: cs =>
    if '0' ≤ c ∧ c ≤ '9' then
      (readDigits w cs).map fun (n, rest) => ((c.toNat - 48) * 10 ^ w + n, rest)
    else none

/-- The numbers of a text of the given shape. -/
def readFields : List (ℕ × Char) → List Char → Option (List ℕ)
  | [], cs => if cs = [] then some [] else none
  | (w, sep) :: shape, cs =>
    (readDigits w cs).bind fun (n, rest) =>
      if rest.head? = some sep then (readFields shape rest.tail).map (n :: ·) else none

theorem digit_read : ∀ d < 10, ('0' ≤ Char.ofNat (48 + d) ∧ Char.ofNat (48 + d) ≤ '9') ∧
    (Char.ofNat (48 + d)).toNat - 48 = d := by
  decide

theorem readDigits_digits (w n : ℕ) (cs : List Char) :
    readDigits w (digits w n ++ cs) = some (n % 10 ^ w, cs) := by
  induction w with
  | zero => simp [readDigits, digits, Nat.mod_one]
  | succ w ih =>
    obtain ⟨hdigit, hvalue⟩ := digit_read _ (lead_digit_lt w n)
    rw [digits, List.cons_append, readDigits, if_pos hdigit, ih, Option.map_some, hvalue, mod_pow_succ]

/-- **The numbers are read back from their fields.** -/
theorem readFields_fields {shape : List (ℕ × Char)} {ns : List ℕ} (h : Fits shape ns) :
    readFields shape (fields shape ns) = some ns := by
  induction h with
  | nil => rfl
  | @cons s n shape ns hlt _ ih =>
    rw [fields, readFields, readDigits_digits, Option.bind_some]
    simp only [List.head?_cons, List.tail_cons, if_true, ih, Option.map_some, Nat.mod_eq_of_lt hlt]

end MerkleVault.Lib.FixedWidth
