import Zngtcp2.Buf
import Mathlib.Tactic.Linarith
import Mathlib.Tactic.Ring

namespace Zngtcp2.Cc

open Lib.Word

/-- `3 * y * (y + 1) + 1`, by which the cube of `y + 1` is larger than that of `y`. -/
def cubeStep (y : Nat) : Option Nat := do
  let triple ← word (3 * y)
  let next ← word (y + 1)
  let product ← word (triple * next)
  word (product + 1)

/-- The body of the loop of `ngtcp2_cbrt`. -/
def cbrtDigit (s n y : Nat) : Option (Nat × Nat) := do
  let y ← word (y <<< 1)
  let b ← cubeStep y
  if n >>> s ≥ b then do
    let shifted ← word (b <<< s)
    let n ← diff n shifted
    let y ← word (y + 1)
    some (n, y)
  else some (n, y)

/-- The loop of `ngtcp2_cbrt`, with `k` turns left. -/
def cbrtLoop : Nat → Nat → Nat → Option (Nat × Nat)
  | 0, n, y => some (n, y)
  | k + 1, n, y => do
    let (n, y) ← cbrtDigit (3 * (k + 1)) n y
    cbrtLoop k n y

/-- `ngtcp2_cbrt`; nothing is returned where an operation on 64-bit words is not exact. -/
def cbrt (n : Nat) : Option Nat := do
  let (n, y) ← cbrtLoop 21 n 0
  let y ← word (y <<< 1)
  let b ← cubeStep y
  if n ≥ b then word (y + 1) else some y

/-- `y` is the cube root of `total` up to its `k` lowest bits, and `n` is what is left. -/
structure Root (total k n y : Nat) : Prop where
  rest : y ^ 3 * 8 ^ k + n = total
  lt : total < (y + 1) ^ 3 * 8 ^ k

section

variable {total k n y : Nat}

theorem cube_succ (y : Nat) : (y + 1) ^ 3 = y ^ 3 + (3 * y * (y + 1) + 1) := by
  ring

/-- The root so far has no more bits than the root of a 64-bit word has above the lowest `k`. -/
theorem Root.y_lt (h : Root total k n y) (htotal : total < 2 ^ 64) : y < 2 ^ 22 := by
  by_contra hge
  have hcube : (2 ^ 22) ^ 3 ≤ y ^ 3 := Nat.pow_le_pow_left (Nat.not_lt.mp hge) 3
  have hpow : y ^ 3 * 1 ≤ y ^ 3 * 8 ^ k := Nat.mul_le_mul_left _ (Nat.one_le_pow _ _ (by decide))
  have hrest := h.rest
  omega

theorem Root.cube_le (h : Root total 0 n y) : y ^ 3 ≤ total := by
  have hrest := h.rest
  rw [pow_zero] at hrest
  omega

theorem Root.lt_cube (h : Root total 0 n y) : total < (y + 1) ^ 3 := by
  have hlt := h.lt
  rwa [pow_zero, Nat.mul_one] at hlt

theorem cubeStep_eq (hy : y ≤ 2 ^ 24) : cubeStep y = some (3 * y * (y + 1) + 1) := by
  have hprod : 3 * y * (y + 1) ≤ 3 * 2 ^ 24 * (2 ^ 24 + 1) :=
    Nat.mul_le_mul (Nat.mul_le_mul_left 3 hy) (Nat.add_le_add_right hy 1)
  have hmax : uint64Max = 2 ^ 64 - 1 := rfl
  simp only [cubeStep, Option.bind_eq_bind]
  rw [word_of_le (by omega), Option.bind_some, word_of_le (by omega), Option.bind_some, word_of_le (by omega),
    Option.bind_some, word_of_le (by omega)]

/-- The next bit of the root is set. -/
theorem Root.one (h : Root total (k + 1) n y) (hb : (3 * (2 * y) * (2 * y + 1) + 1) * 8 ^ k ≤ n) :
    Root total k (n - (3 * (2 * y) * (2 * y + 1) + 1) * 8 ^ k) (2 * y + 1) := by
  have hrest := h.rest
  have hlt := h.lt
  constructor
  · have hcube : (2 * y + 1) ^ 3 * 8 ^ k = y ^ 3 * 8 ^ (k + 1) + (3 * (2 * y) * (2 * y + 1) + 1) * 8 ^ k := by
      rw [cube_succ]
      ring
    omega
  · calc total < (y + 1) ^ 3 * 8 ^ (k + 1) := hlt
      _ = (2 * y + 1 + 1) ^ 3 * 8 ^ k := by ring

/-- The next bit of the root is not set. -/
theorem Root.zero (h : Root total (k + 1) n y) (hb : n < (3 * (2 * y) * (2 * y + 1) + 1) * 8 ^ k) :
    Root total k n (2 * y) := by
  have hrest := h.rest
  have hcube : (2 * y) ^ 3 * 8 ^ k = y ^ 3 * 8 ^ (k + 1) := by ring
  constructor
  · rw [hcube]
    exact hrest
  · rw [cube_succ, Nat.add_mul, hcube]
    omega

theorem shiftLeft_three_mul (b k : Nat) : b <<< (3 * k) = b * 8 ^ k := by
  rw [Nat.shiftLeft_eq, Nat.pow_mul]

theorem le_shiftRight_three_mul (b k n : Nat) : b ≤ n >>> (3 * k) ↔ b * 8 ^ k ≤ n := by
  rw [Nat.shiftRight_eq_div_pow, Nat.pow_mul, Nat.le_div_iff_mul_le (by positivity)]

theorem cbrtDigit_root (htotal : total < 2 ^ 64) (h : Root total (k + 1) n y) :
    ∃ n' y', cbrtDigit (3 * k) n y = some (n', y') ∧ Root total k n' y' := by
  have hy := h.y_lt htotal
  have hmax : uint64Max = 2 ^ 64 - 1 := rfl
  have hdouble : y <<< 1 = 2 * y := by
    rw [Nat.shiftLeft_eq]
    omega
  simp only [cbrtDigit, Option.bind_eq_bind, hdouble]
  rw [word_of_le (by omega), Option.bind_some, cubeStep_eq (by omega), Option.bind_some]
  by_cases hb : n >>> (3 * k) ≥ 3 * (2 * y) * (2 * y + 1) + 1
  · rw [if_pos hb]
    have hle := (le_shiftRight_three_mul _ k n).mp hb
    have hrest := h.rest
    rw [shiftLeft_three_mul, word_of_le (by omega), Option.bind_some, diff_of_le hle, Option.bind_some,
      word_of_le (by omega)]
    exact ⟨_, _, rfl, h.one hle⟩
  · rw [if_neg hb]
    have hlt := Nat.not_le.mp (mt (le_shiftRight_three_mul _ k n).mpr hb)
    exact ⟨_, _, rfl, h.zero hlt⟩

theorem cbrtLoop_root (htotal : total < 2 ^ 64) (h : Root total (k + 1) n y) :
    ∃ n' y', cbrtLoop k n y = some (n', y') ∧ Root total 1 n' y' := by
  induction k generalizing n y with
  | zero => exact ⟨n, y, rfl, h⟩
  | succ k ih =>
      obtain ⟨n₁, y₁, hdigit, hroot⟩ := cbrtDigit_root htotal h
      obtain ⟨n', y', hloop, hroot'⟩ := ih hroot
      refine ⟨n', y', ?_, hroot'⟩
      simp only [cbrtLoop, hdigit, Option.bind_eq_bind, Option.bind_some, hloop]

end

/-- The cube root of a 64-bit word is exact, rounded down, and no operation on the way wraps around. -/
theorem cbrt_spec {n : Nat} (hn : n < 2 ^ 64) : ∃ y, cbrt n = some y ∧ y ^ 3 ≤ n ∧ n < (y + 1) ^ 3 := by
  have hmax : uint64Max = 2 ^ 64 - 1 := rfl
  have hstart : Root n 22 n 0 := ⟨by omega, by omega⟩
  obtain ⟨n', y, hloop, hroot⟩ := cbrtLoop_root hn hstart
  have hy := hroot.y_lt hn
  have hdouble : y <<< 1 = 2 * y := by
    rw [Nat.shiftLeft_eq]
    omega
  simp only [cbrt, hloop, Option.bind_eq_bind, Option.bind_some, hdouble]
  rw [word_of_le (by omega), Option.bind_some, cubeStep_eq (by omega), Option.bind_some]
  by_cases hb : n' ≥ 3 * (2 * y) * (2 * y + 1) + 1
  · have hlast := hroot.one (k := 0) (by rwa [pow_zero, Nat.mul_one])
    refine ⟨2 * y + 1, by rw [if_pos hb, word_of_le (by omega)], ?_, ?_⟩
    · exact hlast.cube_le
    · exact hlast.lt_cube
  · have hlast := hroot.zero (k := 0) (by rwa [pow_zero, Nat.mul_one, ← Nat.not_le])
    exact ⟨2 * y, by rw [if_neg hb], hlast.cube_le, hlast.lt_cube⟩

theorem cbrt_spec_max : ∃ y, cbrt (2 ^ 64 - 1) = some y ∧ y ^ 3 ≤ 2 ^ 64 - 1 ∧ 2 ^ 64 - 1 < (y + 1) ^ 3 :=
  cbrt_spec (by decide)

example : cbrt (2 ^ 64 - 1) = some 2642245 := by decide

end Zngtcp2.Cc
