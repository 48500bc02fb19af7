import Mathlib.Algebra.Group.Nat.Defs
import Mathlib.Data.List.Basic

namespace Zngtcp2.Lib.Numeral

/-- The character codes of `n` written in base `b`. -/
def numeral (b n : Nat) : List Nat :=
  (Nat.toDigits b n).map Char.toNat

/-- The character code of one digit. -/
def digit (d : Nat) : Nat :=
  d.digitChar.toNat

section

variable {b n : Nat}

theorem numeral_of_lt (h : n < b) : numeral b n = [digit n] := by
  rw [numeral, Nat.toDigits_of_lt_base h]
  rfl

theorem numeral_of_le (hb : 1 < b) (h : b ≤ n) : numeral b n = numeral b (n / b) ++ [digit (n % b)] := by
  rw [numeral, Nat.toDigits_of_base_le hb h, List.map_append]
  rfl

/-- The last two digits are written at once. -/
theorem numeral_of_sq_le (hb : 1 < b) (h : b * b ≤ n) :
    numeral b n = numeral b (n / (b * b)) ++ [digit (n / b % b), digit (n % b)] := by
  have hdiv : b ≤ n / b := (Nat.le_div_iff_mul_le (Nat.zero_lt_of_lt hb)).mpr h
  have hle : b ≤ n := Nat.le_trans (Nat.le_mul_of_pos_left b (Nat.zero_lt_of_lt hb)) h
  rw [numeral_of_le hb hle, numeral_of_le hb hdiv, Nat.div_div_eq_div_mul, List.append_assoc]
  rfl

theorem numeral_of_lt_sq (hb : 1 < b) (hle : b ≤ n) (h : n < b * b) : numeral b n = [digit (n / b), digit (n % b)] := by
  rw [numeral_of_le hb hle, numeral_of_lt (Nat.div_lt_of_lt_mul h)]
  rfl

theorem length_numeral_le_iff {k : Nat} (hb : 1 < b) (hk : 0 < k) : (numeral b n).length ≤ k ↔ n < b ^ k := by
  rw [numeral, List.length_map]
  exact Nat.length_toDigits_le_iff hb hk

theorem length_numeral_pos : 0 < (numeral b n).length := by
  rw [numeral, List.length_map]
  exact Nat.length_toDigits_pos

/-- A numeral has `k + 1` digits when the number lies between the powers. -/
theorem length_numeral {k : Nat} (hb : 1 < b) (hle : k = 0 ∨ b ^ k ≤ n) (hlt : n < b ^ (k + 1)) :
    (numeral b n).length = k + 1 := by
  have hub := (length_numeral_le_iff hb (Nat.succ_pos k)).mpr hlt
  obtain hk | hk := Nat.eq_zero_or_pos k
  · have hpos := length_numeral_pos (b := b) (n := n)
    omega
  · have hlb := mt (length_numeral_le_iff hb hk).mp (by omega : ¬ n < b ^ k)
    omega

theorem digit_eq_iff {d : Nat} : digit d = '0'.toNat ↔ d = 0 := by
  constructor
  · intro h
    exact Nat.digitChar_eq_zero.mp (Char.toNat_inj.mp h)
  · rintro rfl
    rfl

/-- Only zero itself begins with a zero. -/
theorem head_numeral (hb : 1 < b) (hn : n ≠ 0) : (numeral b n).head? ≠ some '0'.toNat := by
  induction n using Nat.strongRecOn with
  | ind n ih =>
      by_cases hlt : n < b
      · rw [numeral_of_lt hlt, List.head?_cons, Ne, Option.some.injEq]
        exact fun h => hn (digit_eq_iff.mp h)
      · have hle := Nat.not_lt.mp hlt
        have hpos : 0 < n / b := Nat.div_pos hle (Nat.zero_lt_of_lt hb)
        have hne : numeral b (n / b) ≠ [] := List.ne_nil_of_length_pos length_numeral_pos
        rw [numeral_of_le hb hle, List.head?_append_of_ne_nil _ hne]
        exact ih (n / b) (Nat.div_lt_self (Nat.pos_of_ne_zero hn) hb) (Nat.ne_of_gt hpos)

end

end Zngtcp2.Lib.Numeral
