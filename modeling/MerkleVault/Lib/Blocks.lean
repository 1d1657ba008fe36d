import Mathlib

/-! # Blocks of Numbers

The numbers that agree above a given number of low bits, as a range of addresses is written by its
leading bits.  A block that leaves the low digits of a number free is a block of the digits above
them, and a test by a mask of high bits is membership in a block.

* `mem_append`: the low digits do not matter;
* `mask_eq_iff`: a masked comparison is membership. -/

namespace MerkleVault.Lib.Blocks

/-- The numbers that are `lead` above their `free` low bits. -/
structure Block where
  lead : ℕ
  free : ℕ
deriving DecidableEq

instance : Membership ℕ Block where
  mem b x := x / 2 ^ b.free = b.lead

theorem mem_def {x : ℕ} {b : Block} : x ∈ b ↔ x / 2 ^ b.free = b.lead := Iff.rfl

instance (x : ℕ) (b : Block) : Decidable (x ∈ b) := decidable_of_iff _ mem_def.symm

/-- A block of one number. -/
theorem mem_single {x p : ℕ} : x ∈ (⟨p, 0⟩ : Block) ↔ x = p := by
  rw [mem_def, Nat.pow_zero, Nat.div_one]

/-- The low digits of a number are free in a block that frees as many bits. -/
theorem mem_append {hi lo j k p : ℕ} (hlo : lo < 2 ^ j) :
    hi * 2 ^ j + lo ∈ (⟨p, j + k⟩ : Block) ↔ hi ∈ (⟨p, k⟩ : Block) := by
  have hdiv : (hi * 2 ^ j + lo) / 2 ^ j = hi := by
    rw [Nat.mul_comm, Nat.mul_add_div (Nat.two_pow_pos j), Nat.div_eq_of_lt hlo, Nat.add_zero]
  rw [mem_def, mem_def, Nat.pow_add, ← Nat.div_div_eq_div_mul, hdiv]

/-- The high bits of a number of `w` bits. -/
theorem and_high {x w k : ℕ} (hk : k ≤ w) (hx : x < 2 ^ w) :
    x &&& (2 ^ w - 2 ^ k) = x / 2 ^ k * 2 ^ k := by
  have hmask : 2 ^ w - 2 ^ k = 2 ^ k * (2 ^ (w - k) - 1) := by
    rw [Nat.mul_sub, ← Nat.pow_add, Nat.add_sub_cancel' hk, Nat.mul_one]
  refine Nat.eq_of_testBit_eq fun i => ?_
  rw [hmask, Nat.testBit_and, Nat.testBit_two_pow_mul, Nat.testBit_two_pow_sub_one,
    Nat.testBit_mul_two_pow, Nat.testBit_div_two_pow]
  by_cases hi : k ≤ i
  · rw [Nat.sub_add_cancel hi]
    by_cases hw : i - k < w - k
    · simp [hi, hw]
    · have hbit : x.testBit i = false :=
        Nat.testBit_lt_two_pow (hx.trans_le (Nat.pow_le_pow_right (by decide) (by omega)))
      simp [hbit]
  · simp [hi]

/-- **A test by a mask of high bits** is membership in a block. -/
theorem mask_eq_iff {x w k p : ℕ} (hk : k ≤ w) (hx : x < 2 ^ w) :
    x &&& (2 ^ w - 2 ^ k) = p * 2 ^ k ↔ x ∈ (⟨p, k⟩ : Block) := by
  rw [and_high hk hx, Nat.mul_left_inj (Nat.two_pow_pos k).ne']
  exact Iff.rfl

end MerkleVault.Lib.Blocks
