import Zngtcp2.Buf

namespace Zngtcp2

/-- `ngtcp2_buf` by its addresses; of its functions it is kept whether they are there. -/
structure PtrBuf where
  beginp : Nat
  endp : Nat
  pos : Nat
  last : Nat
  origin : Nat
  role : Nat
  owner : Nat
  retain : Bool
  release : Bool
  deriving DecidableEq, Repr

/-- `NGTCP2_BUF_ROLE_TX_DATAGRAM`, the last of the roles. -/
def roleTxDatagram : Nat :=
  8

def bufRoleBad (role : Nat) : Prop :=
  role > roleTxDatagram

instance (role : Nat) : Decidable (bufRoleBad role) :=
  inferInstanceAs (Decidable (_ > _))

namespace PtrBuf

/-- `(ngtcp2_buf){0}` -/
def zero : PtrBuf :=
  ⟨0, 0, 0, 0, 0, 0, 0, false, false⟩

/-- `ngtcp2_buf_init` -/
def init (beginp len origin role owner : Nat) (retain release : Bool) : PtrBuf :=
  ⟨beginp, if beginp ≠ 0 then beginp + len else 0, beginp, beginp, origin, role, owner, retain, release⟩

variable (buf : PtrBuf)

/-- `buf_bad_range` -/
def badRange : Prop :=
  buf.beginp = 0 ∨ buf.endp = 0 ∨ buf.pos = 0 ∨ buf.last = 0 ∨ buf.beginp > buf.pos ∨ buf.pos > buf.last ∨
    buf.last > buf.endp

instance : Decidable buf.badRange :=
  inferInstanceAs (Decidable (_ ∨ _))

/-- The owner and its functions are either all there or all absent. -/
def badOwner : Prop :=
  (buf.owner ≠ 0 ∨ buf.retain = true ∨ buf.release = true) ∧
    ¬ (buf.owner ≠ 0 ∧ buf.retain = true ∧ buf.release = true)

instance : Decidable buf.badOwner :=
  inferInstanceAs (Decidable (_ ∧ _))

/-- `ngtcp2_buf_validate` -/
def validate (role : Nat) : Rv :=
  if buf.badRange ∨ bufRoleBad role ∨ bufRoleBad buf.role ∨ buf.role ≠ role ∨ buf.badOwner then .bufContract else .ok

variable {buf}

theorem validate_eq_ok {role : Nat} :
    buf.validate role = .ok ↔ ¬ buf.badRange ∧ ¬ bufRoleBad role ∧ ¬ bufRoleBad buf.role ∧ buf.role = role ∧ ¬ buf.badOwner := by
  rw [validate]
  split
  · constructor
    · intro h
      cases h
    · rintro ⟨h₁, h₂, h₃, h₄, h₅⟩
      simp_all
  · simp_all

/-- Where the range is not bad, its four addresses stand in order. -/
theorem not_badRange (h : ¬ buf.badRange) : 0 < buf.beginp ∧ buf.beginp ≤ buf.pos ∧ buf.pos ≤ buf.last ∧ buf.last ≤ buf.endp := by
  simp only [badRange, not_or] at h
  omega

end PtrBuf

end Zngtcp2
