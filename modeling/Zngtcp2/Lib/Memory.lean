import Mathlib.Data.List.GetD
import Mathlib.Logic.Function.Basic

namespace Zngtcp2.Lib.Memory

/-- The byte at each address. -/
abbrev Mem := Nat → Nat

def store (m : Mem) (p byte : Nat) : Mem :=
  Function.update m p byte

/-- The memory with the bytes at `p`, and with every other byte as it is. -/
def written (m : Mem) (p : Nat) (bytes : List Nat) : Mem := fun a =>
  if p ≤ a then bytes.getD (a - p) (m a) else m a

theorem written_nil (m : Mem) (p : Nat) : written m p [] = m := by
  funext a
  simp [written]

theorem store_eq (m : Mem) (p byte : Nat) : store m p byte = written m p [byte] := by
  funext a
  rw [store, written, Function.update_apply]
  by_cases ha : a = p
  · subst ha
    simp
  · rw [if_neg ha]
    split
    · rw [List.getD_eq_default _ _ (by rw [List.length_singleton]; omega)]
    · rfl

/-- The front may be written before what stands behind it. -/
theorem written_front (m : Mem) (p : Nat) (xs ys : List Nat) :
    written (written m p xs) (p + xs.length) ys = written m p (xs ++ ys) := by
  funext a
  simp only [written]
  by_cases hp : p ≤ a
  · rw [if_pos hp, if_pos hp]
    by_cases hlen : p + xs.length ≤ a
    · rw [if_pos hlen, List.getD_append_right _ _ _ _ (by omega), Nat.sub_add_eq, List.getD_eq_default xs _ (by omega)]
    · rw [if_neg hlen, List.getD_append _ _ _ _ (by omega)]
  · rw [if_neg hp, if_neg hp, if_neg (by omega)]

/-- The front may be written after what stands behind it. -/
theorem written_behind (m : Mem) (p : Nat) (xs ys : List Nat) :
    written (written m (p + xs.length) ys) p xs = written m p (xs ++ ys) := by
  funext a
  simp only [written]
  by_cases hp : p ≤ a
  · rw [if_pos hp, if_pos hp]
    by_cases hlen : p + xs.length ≤ a
    · rw [if_pos hlen, List.getD_append_right _ _ _ _ (by omega), Nat.sub_add_eq, List.getD_eq_default xs _ (by omega)]
    · rw [if_neg hlen, List.getD_append _ _ _ _ (by omega)]
  · rw [if_neg hp, if_neg hp, if_neg (by omega)]

/-- What a writer returns that has put the bytes at `p`: the memory, and where they end. -/
def wrote (m : Mem) (p : Nat) (bytes : List Nat) : Option (Mem × Nat) :=
  some (written m p bytes, p + bytes.length)

theorem wrote_nil (m : Mem) (p : Nat) : wrote m p [] = some (m, p) := by
  rw [wrote, written_nil]
  rfl

/-- One writer goes on where the other has ended. -/
theorem wrote_bind {f : Mem × Nat → Option (Mem × Nat)} {ys : List Nat} (h : ∀ m p, f (m, p) = wrote m p ys)
    (m : Mem) (p : Nat) (xs : List Nat) : (wrote m p xs).bind f = wrote m p (xs ++ ys) := by
  rw [wrote, Option.bind_some, h, wrote, written_front, Nat.add_assoc, ← List.length_append]
  rfl

end Zngtcp2.Lib.Memory
