import Mathlib.Tactic.Ring

namespace Zngtcp2.Lib

/-- Of the numbers up to `m` that are `t` modulo `win`, the one closest to `e`; of two at the same distance
it is the larger one. -/
structure Closest (m win t : Nat) (e : Int) (r : Nat) : Prop where
  le : r ≤ m
  mod_eq : r % win = t
  closest : ∀ n ≤ m, n % win = t →
    ((r : Int) - e).natAbs < ((n : Int) - e).natAbs ∨ ((r : Int) - e).natAbs = ((n : Int) - e).natAbs ∧ n ≤ r

namespace Closest

variable {m win t r n : Nat} {e : Int}

/-- Two different numbers of a residue class are a whole window apart. -/
theorem apart (hr : r % win = t) (hn : n % win = t) : n = r ∨ n + win ≤ r ∨ r + win ≤ n := by
  have hdr := Nat.div_add_mod' r win
  have hdn := Nat.div_add_mod' n win
  rcases Nat.lt_trichotomy (n / win) (r / win) with hlt | heq | hlt
  · have hle := Nat.mul_le_mul_right win (Nat.succ_le_of_lt hlt)
    rw [Nat.succ_mul] at hle
    exact Or.inr (Or.inl (by omega))
  · rw [heq] at hdn
    exact Or.inl (by omega)
  · have hle := Nat.mul_le_mul_right win (Nat.succ_le_of_lt hlt)
    rw [Nat.succ_mul] at hle
    exact Or.inr (Or.inr (by omega))

theorem of_window {h : Nat} (hwin : win = 2 * h) (hle : r ≤ m) (hmod : r % win = t) (hlow : e < r + h)
    (hhigh : r ≤ e + h) : Closest m win t e r := by
  refine ⟨hle, hmod, fun n _ hn => ?_⟩
  rcases apart hmod hn with rfl | hlt | hlt
  · exact Or.inr ⟨rfl, Nat.le_refl _⟩
  · omega
  · omega

/-- There is no smaller number in the residue class. -/
theorem of_bottom (hle : r ≤ m) (hmod : r % win = t) (hbottom : r < win) (hhigh : e ≤ r) : Closest m win t e r := by
  refine ⟨hle, hmod, fun n _ hn => ?_⟩
  rcases apart hmod hn with rfl | hlt | hlt
  · exact Or.inr ⟨rfl, Nat.le_refl _⟩
  · omega
  · omega

/-- A number within half a window is the closest one. -/
theorem eq_of_near {h : Nat} (hr : Closest m win t e r) (hwin : win = 2 * h) (hle : n ≤ m) (hmod : n % win = t)
    (hnear : ((n : Int) - e).natAbs < h) : r = n := by
  have hclosest := hr.closest n hle hmod
  rcases apart hmod hr.mod_eq with rfl | hlt | hlt
  · rfl
  · omega
  · omega

end Closest

end Zngtcp2.Lib
