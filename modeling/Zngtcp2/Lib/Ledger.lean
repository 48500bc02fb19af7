import Mathlib.Tactic.Ring
import Mathlib.Algebra.Order.Group.Multiset
import Mathlib.Tactic.Abel

namespace Zngtcp2.Lib.Ledger

/-- What was taken and what was given back, in a monoid that says how much. -/
structure Account (M : Type) where
  taken : M
  given : M

section

variable {M : Type} [AddCancelCommMonoid M]

/-- Between the two accounts, everything taken or given back is accounted for by what is held:
`ins` before, `outs` afterwards. -/
def Moves (l : Account M) (ins : M) (l' : Account M) (outs : M) : Prop :=
  l'.taken + l.given + ins = l.taken + l'.given + outs

namespace Moves

variable {l l' l'' : Account M} {a b c : M}

theorem refl (l : Account M) (a : M) : Moves l a l a :=
  rfl

theorem trans (h : Moves l a l' b) (h' : Moves l' b l'' c) : Moves l a l'' c := by
  have hsum : (l'.taken + l'.given + b) + (l''.taken + l.given + a) = (l'.taken + l'.given + b) + (l.taken + l''.given + c) :=
    calc (l'.taken + l'.given + b) + (l''.taken + l.given + a)
        = (l'.taken + l.given + a) + (l''.taken + l'.given + b) := by abel
      _ = (l.taken + l'.given + b) + (l'.taken + l''.given + c) := by rw [show _ = _ from h, show _ = _ from h']
      _ = (l'.taken + l'.given + b) + (l.taken + l''.given + c) := by abel
  exact add_left_cancel hsum

/-- What is held besides stays held. -/
theorem frame (h : Moves l a l' b) (c : M) : Moves l (a + c) l' (b + c) := by
  rw [Moves, ← add_assoc, ← add_assoc, show _ = _ from h]

theorem cancel {c : M} (h : Moves l (a + c) l' (b + c)) : Moves l a l' b := by
  rw [Moves, ← add_assoc, ← add_assoc] at h
  exact add_right_cancel h

theorem take (l : Account M) (a : M) : Moves l 0 ⟨l.taken + a, l.given⟩ a := by
  change l.taken + a + l.given + 0 = l.taken + l.given + a
  abel

theorem give (l : Account M) (a : M) : Moves l a ⟨l.taken, l.given + a⟩ 0 := by
  change l.taken + l.given + a = l.taken + (l.given + a) + 0
  abel

/-- What is taken and given back at once changes nothing. -/
theorem pass (l : Account M) (a b : M) : Moves l b ⟨l.taken + a, l.given + a⟩ b := by
  change l.taken + a + l.given + b = l.taken + (l.given + a) + b
  abel

/-- From an empty account on, what is held is what was taken and not given back. -/
theorem balance (h : Moves ⟨0, 0⟩ 0 l a) : l.taken = l.given + a := by
  have heq : l.taken + 0 + 0 = 0 + l.given + a := h
  rwa [add_zero, add_zero, zero_add] at heq

end Moves

end

end Zngtcp2.Lib.Ledger
