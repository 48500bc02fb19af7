import Zngtcp2.Lib.Closest
import Zngtcp2.Pkt.Protect

namespace Zngtcp2.Pkt

open Lib

section Window

variable {w h e t : Nat}

theorem candidate_eq (numlen : Nat) (ht : t < 2 ^ (numlen * 8)) :
    e / 2 ^ (numlen * 8) * 2 ^ (numlen * 8) ||| t = e / 2 ^ (numlen * 8) * 2 ^ (numlen * 8) + t := by
  rw [Nat.mul_comm]
  exact (Nat.two_pow_add_eq_or_of_lt ht _).symm

theorem candidate_mod (ht : t < w) : (e / w * w + t) % w = t := by
  rw [Nat.mul_add_mod', Nat.mod_eq_of_lt ht]

/-- A number below a bound that consists of whole windows lies in one that ends below it as well. -/
theorem window_le {b : Nat} (he : e < b) (hb : w ∣ b) : e / w * w + w ≤ b := by
  obtain ⟨k, rfl⟩ := hb
  have hlt : e / w < k := Nat.div_lt_of_lt_mul he
  calc e / w * w + w = (e / w + 1) * w := (Nat.succ_mul _ _).symm
    _ ≤ k * w := Nat.mul_le_mul_right w hlt
    _ = w * k := Nat.mul_comm k w

theorem le_window {b : Nat} (he : b ≤ e) (hb : w ∣ b) (hw : 0 < w) : b ≤ e / w * w := by
  obtain ⟨k, rfl⟩ := hb
  have hle : k ≤ e / w := (Nat.le_div_iff_mul_le hw).mpr (by rwa [Nat.mul_comm])
  calc w * k = k * w := Nat.mul_comm w k
    _ ≤ e / w * w := Nat.mul_le_mul_right w hle

end Window

/-- The candidate is moved up by a window unless it lies in the last one, where an assertion fails; it is
moved down unless it lies in the first one. -/
theorem adjustPktNum_cases {largest : Int} {e t numlen : Nat} (he : largest + 1 = e) (ht : t < 2 ^ (numlen * 8)) :
    adjustPktNum largest t numlen =
      if t + 2 ^ (numlen * 8) / 2 ≤ e % 2 ^ (numlen * 8) then
        if e / 2 ^ (numlen * 8) * 2 ^ (numlen * 8) + t ≤ 2 ^ 62 - 1 - 2 ^ (numlen * 8) then
          .ok (e / 2 ^ (numlen * 8) * 2 ^ (numlen * 8) + t + 2 ^ (numlen * 8))
        else .error .assertion
      else if e % 2 ^ (numlen * 8) + 2 ^ (numlen * 8) / 2 < t ∧
          2 ^ (numlen * 8) ≤ e / 2 ^ (numlen * 8) * 2 ^ (numlen * 8) + t then
        .ok (e / 2 ^ (numlen * 8) * 2 ^ (numlen * 8) + t - 2 ^ (numlen * 8))
      else .ok (e / 2 ^ (numlen * 8) * 2 ^ (numlen * 8) + t) := by
  have hdiv := Nat.div_add_mod' e (2 ^ (numlen * 8))
  have hup : e / 2 ^ (numlen * 8) * 2 ^ (numlen * 8) + t + 2 ^ (numlen * 8) / 2 ≤ e ↔
      t + 2 ^ (numlen * 8) / 2 ≤ e % 2 ^ (numlen * 8) := by
    omega
  have hdown : e + 2 ^ (numlen * 8) / 2 < e / 2 ^ (numlen * 8) * 2 ^ (numlen * 8) + t ↔
      e % 2 ^ (numlen * 8) + 2 ^ (numlen * 8) / 2 < t := by
    omega
  simp only [adjustPktNum, he, Int.toNat_natCast, candidate_eq numlen ht, hup, hdown]

/-- Where the candidate need not be moved up out of the last window, the result is the closest one. -/
theorem adjustPktNum_ok {largest : Int} {e t numlen h : Nat} (he : largest + 1 = e) (ht : t < 2 ^ (numlen * 8))
    (hlt : e < 2 ^ 62) (hwin : 2 ^ (numlen * 8) = 2 * h) (hdvd : 2 ^ (numlen * 8) ∣ 2 ^ 62)
    (hup : e + 2 ^ (numlen * 8) < 2 ^ 62 ∨ e % 2 ^ (numlen * 8) < t + h) :
    ∃ r, adjustPktNum largest t numlen = .ok r ∧ Closest (2 ^ 62 - 1) (2 ^ (numlen * 8)) t e r := by
  have hcases := adjustPktNum_cases he ht
  have hmod := candidate_mod (e := e) ht
  have hdiv := Nat.div_add_mod' e (2 ^ (numlen * 8))
  have hend := window_le hlt hdvd
  have hroom (hup : e + 2 ^ (numlen * 8) < 2 ^ 62) :
      e / 2 ^ (numlen * 8) * 2 ^ (numlen * 8) + 2 ^ (numlen * 8) + 2 ^ (numlen * 8) ≤ 2 ^ 62 := by
    have hend := window_le hup hdvd
    rwa [Nat.add_div_right _ (Nat.two_pow_pos _), Nat.succ_mul] at hend
  have hhalf : 2 ^ (numlen * 8) / 2 = h := by
    omega
  have hlow := Nat.mod_lt e (Nat.two_pow_pos (numlen * 8))
  rw [hhalf] at hcases
  generalize 2 ^ (numlen * 8) = w at *
  generalize e / w * w = a at *
  by_cases hmove : t + h ≤ e % w
  · have hroom := hroom (by omega)
    rw [if_pos hmove, if_pos (by omega)] at hcases
    refine ⟨_, hcases, Closest.of_window hwin (by omega) ?_ (by omega) (by omega)⟩
    rw [Nat.add_mod_right, hmod]
  · rw [if_neg hmove] at hcases
    by_cases hdown : e % w + h < t ∧ w ≤ a + t
    · rw [if_pos hdown] at hcases
      refine ⟨_, hcases, Closest.of_window hwin (by omega) ?_ (by omega) (by omega)⟩
      rw [← Nat.mod_eq_sub_mod hdown.2, hmod]
    · rw [if_neg hdown] at hcases
      refine ⟨_, hcases, ?_⟩
      by_cases hnear : t ≤ e % w + h
      · exact Closest.of_window hwin (by omega) hmod (by omega) (by omega)
      · exact Closest.of_bottom (by omega) hmod (by omega) (by omega)

theorem adjustPktNum_fault {largest : Int} {e t numlen h : Nat} (he : largest + 1 = e) (ht : t < 2 ^ (numlen * 8))
    (hwin : 2 ^ (numlen * 8) = 2 * h) (hdvd : 2 ^ (numlen * 8) ∣ 2 ^ 62) (hne : 2 ^ (numlen * 8) ≠ 2 ^ 62)
    (hlast : 2 ^ 62 ≤ e + 2 ^ (numlen * 8)) (hmove : t + h ≤ e % 2 ^ (numlen * 8)) : adjustPktNum largest t numlen = .error .assertion := by
  have hhalf : 2 ^ (numlen * 8) / 2 = h := by
    omega
  have hend := le_window hlast hdvd (Nat.two_pow_pos _)
  rw [Nat.add_div_right _ (Nat.two_pow_pos _), Nat.succ_mul] at hend
  have hle := Nat.le_of_dvd (by decide) hdvd
  rw [adjustPktNum_cases he ht, hhalf, if_pos hmove, if_neg (by omega)]

/-- The full packet number exists and is the closest one just when the candidate need not be moved up out
of the last window. -/
theorem adjustPktNum_closest (largest : Int) (t numlen : Nat) (hlow : -1 ≤ largest) (hhigh : largest ≤ 2 ^ 62 - 2)
    (hnumlen : 1 ≤ numlen) (hnumlen' : numlen ≤ 4) (ht : t < 2 ^ (8 * numlen)) :
    (∃ r, adjustPktNum largest t numlen = .ok r ∧ Closest (2 ^ 62 - 1) (2 ^ (8 * numlen)) t (largest + 1) r ∧
        ∀ pn : Nat, pn ≤ 2 ^ 62 - 1 → |(pn : Int) - (largest + 1)| < 2 ^ (8 * numlen - 1) →
          pn % 2 ^ (8 * numlen) = t → r = pn) ↔
      largest + 1 < 2 ^ 62 - 2 ^ (8 * numlen) ∨
        (largest + 1) % 2 ^ (8 * numlen) < (t + 2 ^ (8 * numlen - 1) : Nat) := by
  obtain ⟨e, he⟩ := Int.eq_ofNat_of_zero_le (show 0 ≤ largest + 1 by omega)
  have hwin : 2 ^ (8 * numlen) = 2 * 2 ^ (8 * numlen - 1) := by
    rw [← Nat.pow_succ', show (8 * numlen - 1).succ = 8 * numlen by omega]
  have hdvd : 2 ^ (8 * numlen) ∣ 2 ^ 62 := Nat.pow_dvd_pow 2 (by omega)
  have hcomm : 8 * numlen = numlen * 8 := Nat.mul_comm 8 numlen
  have hupper : largest + 1 < 2 ^ 62 - 2 ^ (8 * numlen) ↔ e + 2 ^ (8 * numlen) < 2 ^ 62 := by
    rw [he, lt_sub_iff_add_lt]
    exact_mod_cast Iff.rfl
  have hoffset : (largest + 1) % 2 ^ (8 * numlen) < (t + 2 ^ (8 * numlen - 1) : Nat) ↔
      e % 2 ^ (8 * numlen) < t + 2 ^ (8 * numlen - 1) := by
    rw [he]
    exact_mod_cast Iff.rfl
  rw [hupper, hoffset]
  constructor
  · rintro ⟨r, hadjust, -⟩
    by_contra hcond
    push Not at hcond
    rw [hcomm] at hcond hdvd hwin ht
    have hne : 2 ^ (numlen * 8) ≠ 2 ^ 62 := fun h => by
      have hexp := Nat.pow_right_injective (Nat.le_refl 2) h
      omega
    rw [adjustPktNum_fault he ht hwin hdvd hne hcond.1 hcond.2] at hadjust
    cases hadjust
  · intro hcond
    have hlt : e < 2 ^ 62 := by
      omega
    obtain ⟨r, hadjust, hr⟩ := adjustPktNum_ok he (hcomm ▸ ht) hlt (hcomm ▸ hwin) (hcomm ▸ hdvd) (hcomm ▸ hcond)
    rw [← hcomm, ← he] at hr
    refine ⟨r, hadjust, hr, fun pn hle hnear hmod => hr.eq_of_near hwin hle hmod ?_⟩
    rw [← Int.ofNat_lt, Int.natCast_natAbs]
    exact_mod_cast hnear

/-- The largest packet number but one, and a packet whose number ends in a zero byte. -/
theorem adjustPktNum_last : adjustPktNum (2 ^ 62 - 2) 0 1 = .error .assertion := by
  decide

theorem adjustPktNum_closest_last :
    ¬ ∀ (largest : Int) (t numlen : Nat), -1 ≤ largest → largest ≤ 2 ^ 62 - 2 → 1 ≤ numlen → numlen ≤ 4 →
      t < 2 ^ (8 * numlen) →
      ∃ r, adjustPktNum largest t numlen = .ok r ∧ Closest (2 ^ 62 - 1) (2 ^ (8 * numlen)) t (largest + 1) r ∧
        ∀ pn : Nat, pn ≤ 2 ^ 62 - 1 → |(pn : Int) - (largest + 1)| < 2 ^ (8 * numlen - 1) →
          pn % 2 ^ (8 * numlen) = t → r = pn := by
  intro h
  obtain ⟨r, hadjust, -⟩ := h (2 ^ 62 - 2) 0 1 (by decide) (by decide) (by decide) (by decide) (by decide)
  rw [adjustPktNum_last] at hadjust
  cases hadjust

/-- The example of the specification. -/
theorem adjustPktNum_closest_example :
    (∃ r, adjustPktNum 0xa82f30ea 0x9b32 2 = .ok r ∧ Closest (2 ^ 62 - 1) (2 ^ 16) 0x9b32 (0xa82f30ea + 1) r ∧
        ∀ pn : Nat, pn ≤ 2 ^ 62 - 1 → |(pn : Int) - (0xa82f30ea + 1)| < 2 ^ 15 → pn % 2 ^ 16 = 0x9b32 → r = pn) ↔
      (0xa82f30ea : Int) + 1 < 2 ^ 62 - 2 ^ 16 ∨ ((0xa82f30ea : Int) + 1) % 2 ^ 16 < (0x9b32 + 2 ^ 15 : Nat) :=
  adjustPktNum_closest 0xa82f30ea 0x9b32 2 (by decide) (by decide) (by decide) (by decide) (by decide)

end Zngtcp2.Pkt
