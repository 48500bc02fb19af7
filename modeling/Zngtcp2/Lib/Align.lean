import Mathlib.Data.Nat.Bitwise

namespace Zngtcp2.Lib.Align

/-- The complement of a 64-bit word. -/
def complement (v : Nat) : Nat :=
  2 ^ 64 - 1 - v

/-- A 64-bit word rounded up to a multiple of `align`, as it is done with a mask. -/
def roundUp (p align : Nat) : Nat :=
  (p + align - 1) % 2 ^ 64 &&& complement (align - 1)

/-- The mask clears the lowest bits. -/
theorem and_complement {v k : Nat} (hv : v < 2 ^ 64) (hk : k < 64) :
    v &&& complement (2 ^ k - 1) = v / 2 ^ k * 2 ^ k := by
  have hpow : 2 ^ k ≤ 2 ^ 64 := Nat.pow_le_pow_right (by decide) (Nat.le_of_lt hk)
  have hpos : 0 < 2 ^ k := Nat.pow_pos (by decide)
  have hmask : complement (2 ^ k - 1) = 2 ^ 64 - (2 ^ k - 1 + 1) := by
    rw [complement]
    omega
  rw [hmask, ← Nat.shiftRight_eq_div_pow, ← Nat.shiftLeft_eq]
  apply Nat.eq_of_testBit_eq
  intro i
  rw [Nat.testBit_and, Nat.testBit_two_pow_sub_succ (by omega), Nat.testBit_two_pow_sub_one, Nat.testBit_shiftLeft,
    Nat.testBit_shiftRight]
  by_cases hik : i < k
  · simp [hik]
  · have hki : k + (i - k) = i := by omega
    rw [hki]
    by_cases hi : i < 64
    · simp [hik, hi, Nat.not_lt.mp hik]
    · have hclear : v.testBit i = false :=
        Nat.testBit_lt_two_pow (Nat.lt_of_lt_of_le hv (Nat.pow_le_pow_right (by decide) (Nat.not_lt.mp hi)))
      simp [hclear]

variable {p k : Nat}

theorem roundUp_eq (hk : k < 64) (hp : p + 2 ^ k ≤ 2 ^ 64) : roundUp p (2 ^ k) = (p + 2 ^ k - 1) / 2 ^ k * 2 ^ k := by
  have hpos : 0 < 2 ^ k := Nat.pow_pos (by decide)
  have hlt : p + 2 ^ k - 1 < 2 ^ 64 := by omega
  rw [roundUp, Nat.mod_eq_of_lt hlt, and_complement hlt hk]

theorem roundUp_spec (hk : k < 64) (hp : p + 2 ^ k ≤ 2 ^ 64) :
    2 ^ k ∣ roundUp p (2 ^ k) ∧ p ≤ roundUp p (2 ^ k) ∧ roundUp p (2 ^ k) < p + 2 ^ k := by
  have hpos : 0 < 2 ^ k := Nat.pow_pos (by decide)
  rw [roundUp_eq hk hp]
  refine ⟨Dvd.intro_left _ rfl, ?_, ?_⟩
  · have hdiv := Nat.lt_div_mul_add (a := p + 2 ^ k - 1) hpos
    omega
  · have hdiv := Nat.div_mul_le_self (p + 2 ^ k - 1) (2 ^ k)
    omega

/-- The low bits tell whether a word is aligned. -/
theorem and_sub_one_eq_zero_iff (p k : Nat) : p &&& (2 ^ k - 1) = 0 ↔ 2 ^ k ∣ p := by
  rw [Nat.and_two_pow_sub_one_eq_mod]
  exact (Nat.dvd_iff_mod_eq_zero).symm

end Zngtcp2.Lib.Align
