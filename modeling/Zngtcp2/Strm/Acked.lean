import Zngtcp2.Strm.Gaptr

namespace Zngtcp2.Strm

open Reorder (Range)
open Gaptr

/-- What is acknowledged of a sent stream: the offsets below `cont`, and the tracker once a frame
was acknowledged out of order. -/
structure Acked where
  cont : Nat
  gaps : Option Gaps
  deriving DecidableEq, Repr

namespace Acked

def new : Acked :=
  ⟨0, none⟩

def ackedOffset (a : Acked) : Nat :=
  match a.gaps with
  | none => a.cont
  | some gaps => firstGapOffset gaps

def unackedRangeAfter (a : Acked) (offset : Nat) : Option Range :=
  match a.gaps with
  | none => some ⟨a.cont, uint64Max⟩
  | some gaps => firstGapAfter gaps offset

/-- `ngtcp2_strm_ack_data`; the state is updated also when it returns `NGTCP2_ERR_INTERNAL`. -/
def ackData (a : Acked) (offset len : Nat) : Rv × Acked :=
  if a.gaps = none ∧ a.cont = offset then (.ok, { a with cont := a.cont + len })
  else
    let gaps := Gaptr.push (a.gaps.getD (Gaptr.push [] 0 a.cont)) offset len
    (if 4000 ≤ gaps.length then .internal else .ok, { a with gaps := some gaps })

/-- The offset `x` is not acknowledged. -/
def Missing (a : Acked) (x : Nat) : Prop :=
  match a.gaps with
  | none => a.cont ≤ x ∧ x < uint64Max
  | some gaps => Mem gaps x

/-- No offset from `bound` on is acknowledged. -/
structure Wf (a : Acked) (bound : Nat) : Prop where
  bound_lt : bound < uint64Max
  sorted : ∀ gaps, a.gaps = some gaps → Sorted gaps
  missing : ∀ x, bound ≤ x → x < uint64Max → a.Missing x
  lt_max : ∀ x, a.Missing x → x < uint64Max

theorem new_wf {bound : Nat} (h : bound < uint64Max) : new.Wf bound :=
  ⟨h, by simp [new], fun x _ hx => ⟨Nat.zero_le x, hx⟩, fun x hx => hx.2⟩

theorem Wf.mono {a : Acked} {bound bound' : Nat} (h : a.Wf bound) (hle : bound ≤ bound') (hlt : bound' < uint64Max) :
    a.Wf bound' :=
  ⟨hlt, h.sorted, fun x hx => h.missing x (Nat.le_trans hle hx), h.lt_max⟩

theorem Wf.ne_nil {a : Acked} {bound : Nat} (h : a.Wf bound) {gaps : Gaps} (hg : a.gaps = some gaps) :
    gaps ≠ [] := by
  have hm := h.missing bound (Nat.le_refl _) h.bound_lt
  simp only [Missing, hg] at hm
  exact hm.ne_nil

theorem Wf.missing_ackedOffset {a : Acked} {bound : Nat} (h : a.Wf bound) : a.Missing a.ackedOffset := by
  rw [Missing, ackedOffset]
  cases hg : a.gaps with
  | none =>
      have hm := h.missing
      simp only [Missing, hg] at hm ⊢
      refine ⟨Nat.le_refl _, ?_⟩
      have := (hm bound (Nat.le_refl _) h.bound_lt).1
      have := h.bound_lt
      omega
  | some gaps => exact mem_firstGapOffset (h.sorted gaps hg) (h.ne_nil hg)

theorem Wf.ackedOffset_le {a : Acked} {bound : Nat} (h : a.Wf bound) {x : Nat} (hx : a.Missing x) :
    a.ackedOffset ≤ x := by
  rw [ackedOffset]
  rw [Missing] at hx
  cases hg : a.gaps with
  | none =>
      rw [hg] at hx
      exact hx.1
  | some gaps =>
      rw [hg] at hx
      exact firstGapOffset_le (h.sorted gaps hg) hx

theorem Wf.ackedOffset_le_bound {a : Acked} {bound : Nat} (h : a.Wf bound) : a.ackedOffset ≤ bound :=
  h.ackedOffset_le (h.missing bound (Nat.le_refl _) h.bound_lt)

theorem Wf.unackedRangeAfter_spec {a : Acked} {bound : Nat} (h : a.Wf bound) {offset : Nat} (hle : offset ≤ bound) :
    ∃ k, a.unackedRangeAfter offset = some k ∧ IsFirstGap a.Missing offset k := by
  have hb := h.missing bound (Nat.le_refl _) h.bound_lt
  have hlt := h.bound_lt
  rw [unackedRangeAfter]
  cases hg : a.gaps with
  | none =>
      have hm : ∀ x, a.Missing x ↔ a.cont ≤ x ∧ x < uint64Max := fun x => by simp only [Missing, hg]
      rw [hm] at hb
      refine ⟨⟨a.cont, uint64Max⟩, rfl, ?_, ?_, ?_, fun x hx hx' => (hm x).mpr ⟨hx, hx'⟩⟩
      · exact Nat.lt_of_le_of_lt hb.1 hb.2
      · exact Nat.lt_of_le_of_lt hle hlt
      · intro x _ hx hmx
        exact Nat.not_le.mpr hx ((hm x).mp hmx).1
  | some gaps =>
      have hm : a.Missing = Mem gaps := by
        funext x
        simp only [Missing, hg]
      rw [hm] at hb ⊢
      exact firstGapAfter_spec (h.sorted gaps hg) hb hle

theorem missing_ackData {a : Acked} {bound : Nat} (h : a.Wf bound) (offset len : Nat) (x : Nat) :
    (a.ackData offset len).2.Missing x ↔ a.Missing x ∧ ¬(offset ≤ x ∧ x < offset + len) := by
  rw [ackData]
  split
  · rename_i hc
    simp only [Missing, hc.1]
    omega
  · rename_i hc
    simp only [Missing]
    cases hg : a.gaps with
    | none =>
        have hs : Sorted (Gaptr.push [] 0 a.cont) := push_sorted ⟨by simp, List.Pairwise.nil⟩ _ _
        have hne : Gaptr.push [] 0 a.cont ≠ [] := by
          have hb := h.missing bound (Nat.le_refl _) h.bound_lt
          simp only [Missing, hg] at hb
          have hm : Mem (Gaptr.push [] 0 a.cont) a.cont := by
            rw [mem_push ⟨by simp, List.Pairwise.nil⟩, mem_initialized_nil]
            omega
          exact hm.ne_nil
        rw [Option.getD_none, mem_push hs, mem_of_mem_initialized hne, mem_push ⟨by simp, List.Pairwise.nil⟩,
          mem_initialized_nil]
        omega
    | some gaps =>
        rw [Option.getD_some, mem_push (h.sorted gaps hg), mem_of_mem_initialized (h.ne_nil hg)]

theorem sorted_ackData {a : Acked} (h : ∀ gaps, a.gaps = some gaps → Sorted gaps) (offset len : Nat) :
    ∀ gaps, (a.ackData offset len).2.gaps = some gaps → Sorted gaps := by
  intro gaps hg
  rw [Acked.ackData] at hg
  split at hg
  · rename_i hc
    rw [hc.1] at hg
    cases hg
  · simp only [Option.some.injEq] at hg
    subst hg
    apply push_sorted
    cases hga : a.gaps with
    | none => exact push_sorted ⟨by simp, List.Pairwise.nil⟩ _ _
    | some gaps => exact h gaps hga

theorem unackedRangeAfter_end {a : Acked} (h : ∀ gaps, a.gaps = some gaps → Sorted gaps) {offset : Nat} {gap : Range}
    (hgap : a.unackedRangeAfter offset = some gap) : offset < gap.endOff ∨ gap.endOff = uint64Max := by
  rw [unackedRangeAfter] at hgap
  cases hg : a.gaps with
  | none =>
      rw [hg] at hgap
      cases hgap
      exact Or.inr rfl
  | some gaps =>
      rw [hg] at hgap
      exact Or.inl (firstGapAfter_end (h gaps hg) hgap)

theorem Wf.ackData {a : Acked} {bound : Nat} (h : a.Wf bound) {offset len : Nat} (hle : offset + len ≤ bound) :
    (a.ackData offset len).2.Wf bound := by
  refine ⟨h.bound_lt, sorted_ackData h.sorted offset len, ?_, ?_⟩
  · intro x hx hlt
    exact (missing_ackData h offset len x).mpr ⟨h.missing x hx hlt, by omega⟩
  · intro x hx
    exact h.lt_max x ((missing_ackData h offset len x).mp hx).1

theorem Wf.ackedOffset_mono {a : Acked} {bound : Nat} (h : a.Wf bound) {offset len : Nat}
    (hle : offset + len ≤ bound) : a.ackedOffset ≤ (a.ackData offset len).2.ackedOffset :=
  h.ackedOffset_le ((missing_ackData h offset len _).mp (h.ackData hle).missing_ackedOffset).1

end Acked

end Zngtcp2.Strm
