import Zngtcp2.Strm.Acked
import Zngtcp2.Strm.GaptrRuns

namespace Zngtcp2.Strm

open Reorder (Range)
open Gaptr (Gaps Pushed IsGapAfter)

namespace Acked

/-- `txOffset` is the end of what was sent. -/
def isAllTxDataAcked (a : Acked) (txOffset : Nat) : Bool :=
  match a.gaps with
  | none => a.cont = txOffset
  | some gaps => Gaptr.firstGapOffset gaps = txOffset

/-- The state after the given calls of `ngtcp2_strm_ack_data`, each with an offset and a length. -/
def ackAll (a : Acked) (acks : List (Nat × Nat)) : Acked :=
  acks.foldl (fun a p => (a.ackData p.1 p.2).2) a

/-- What `process_acked_pkt` finds newly acknowledged at each call, from the previous to the next
contiguous offset. -/
def reports (a : Acked) : List (Nat × Nat) → List Range
  | [] => []
  | p :: acks =>
      let a' := (a.ackData p.1 p.2).2
      ⟨a.ackedOffset, a'.ackedOffset⟩ :: a'.reports acks

/-- Both representations stand for the set of acknowledged offsets. -/
structure Denotes (a : Acked) (P : Nat → Prop) : Prop where
  bounded : ∀ x, P x → x < 2 ^ 62
  cont : a.gaps = none → ∀ x, P x ↔ x < a.cont
  gaps : ∀ gaps, a.gaps = some gaps → Gaptr.Tracks gaps P

theorem Denotes.congr {a : Acked} {P Q : Nat → Prop} (h : a.Denotes P) (hPQ : ∀ x, P x ↔ Q x) : a.Denotes Q := by
  have heq : P = Q := funext fun x => propext (hPQ x)
  exact heq ▸ h

theorem new_denotes : new.Denotes fun _ => False := by
  refine ⟨fun _ hx => absurd hx id, fun _ x => ?_, fun gaps hgaps => by cases hgaps⟩
  exact ⟨False.elim, Nat.not_lt_zero x⟩

/-- The tracker that the first acknowledgement out of order starts from. -/
theorem Denotes.tracker {a : Acked} {P : Nat → Prop} (h : a.Denotes P) :
    Gaptr.Tracks (a.gaps.getD (Gaptr.push [] 0 a.cont)) P := by
  cases hg : a.gaps with
  | some gaps => exact h.gaps gaps hg
  | none =>
      have hcont := h.cont hg
      have hle : a.cont ≤ 2 ^ 62 := by
        by_contra hlt
        exact Nat.lt_irrefl _ (h.bounded _ ((hcont (2 ^ 62)).mpr (by omega)))
      have htracks := Gaptr.tracks_nil.push (fun _ hx => absurd hx id) (show 0 + a.cont ≤ 2 ^ 62 by omega)
      have heq : P = fun x => False ∨ (0 ≤ x ∧ x < 0 + a.cont) := by
        funext x
        rw [false_or, Nat.zero_add, eq_true (Nat.zero_le x), true_and]
        exact propext (hcont x)
      rw [heq]
      exact htracks

theorem Denotes.ackData {a : Acked} {P : Nat → Prop} (h : a.Denotes P) {offset len : Nat}
    (hle : offset + len ≤ 2 ^ 62) :
    (a.ackData offset len).2.Denotes fun x => P x ∨ (offset ≤ x ∧ x < offset + len) := by
  have hbounded : ∀ x, P x ∨ (offset ≤ x ∧ x < offset + len) → x < 2 ^ 62 := by
    rintro x (hx | hx)
    · exact h.bounded x hx
    · omega
  rw [Acked.ackData]
  by_cases hfast : a.gaps = none ∧ a.cont = offset
  · rw [if_pos hfast]
    refine ⟨hbounded, fun _ x => ?_, fun gaps hgaps => ?_⟩
    · rw [h.cont hfast.1 x]
      simp only
      omega
    · simp only [hfast.1] at hgaps
      cases hgaps
  · rw [if_neg hfast]
    refine ⟨hbounded, fun hgaps => (by cases hgaps), fun gaps hgaps => ?_⟩
    cases hgaps
    exact h.tracker.push h.bounded hle

theorem Denotes.ackAll {a : Acked} {P : Nat → Prop} (h : a.Denotes P) {acks : List (Nat × Nat)}
    (hle : ∀ p ∈ acks, p.1 + p.2 ≤ 2 ^ 62) : (a.ackAll acks).Denotes fun x => P x ∨ Pushed acks x := by
  induction acks generalizing a P with
  | nil =>
      apply h.congr
      intro x
      simp [Pushed]
  | cons p acks ih =>
      obtain ⟨hp, hacks⟩ := List.forall_mem_cons.mp hle
      apply (ih (h.ackData hp) hacks).congr
      intro x
      simp only [Pushed, List.exists_mem_cons_iff, or_assoc]

theorem Denotes.ackedOffset_isLeast {a : Acked} {P : Nat → Prop} (h : a.Denotes P) :
    IsLeast {x | ¬ P x} a.ackedOffset := by
  rw [ackedOffset]
  cases hg : a.gaps with
  | some gaps => exact (h.gaps gaps hg).firstGapOffset_isLeast
  | none =>
      have hcont := h.cont hg
      refine ⟨fun hc => Nat.lt_irrefl _ ((hcont _).mp hc), fun x hx => ?_⟩
      exact Nat.not_lt.mp fun hlt => hx ((hcont x).mpr hlt)

/-- The first maximal range of numbers without `P` among those from `o` on and below `UINT64_MAX`. -/
structure IsFirstWithout (P : Nat → Prop) (o : Nat) (k : Range) : Prop where
  le : o ≤ k.begin
  lt : k.begin < k.endOff
  endOff_le : k.endOff ≤ uint64Max
  inside : ∀ x, k.begin ≤ x → x < k.endOff → ¬ P x
  before : ∀ x, o ≤ x → x < k.begin → P x
  right : k.endOff < uint64Max → P k.endOff

theorem isFirstWithout_of_gap {P : Nat → Prop} {o : Nat} {k : Range} (h : IsGapAfter P o k) :
    IsFirstWithout P o ⟨max k.begin o, k.endOff⟩ := by
  have hlt := h.lt
  have hafter := h.after
  refine ⟨Nat.le_max_right _ _, Nat.max_lt.mpr ⟨hlt, hafter⟩, h.endOff_le, fun x hx => ?_, fun x hx hx' => ?_, h.right⟩
  · exact h.inside x (Nat.le_trans (Nat.le_max_left _ _) hx)
  · have hx' : x < max k.begin o := hx'
    exact h.before x hx (by omega)

theorem Denotes.unackedRangeAfter {a : Acked} {P : Nat → Prop} (h : a.Denotes P) {o : Nat} (ho : o < uint64Max) :
    ∃ k, a.unackedRangeAfter o = some k ∧ IsFirstWithout P o ⟨max k.begin o, k.endOff⟩ := by
  rw [Acked.unackedRangeAfter]
  cases hg : a.gaps with
  | some gaps =>
      obtain ⟨k, hk, hgap⟩ := (h.gaps gaps hg).firstGapAfter h.bounded ho
      exact ⟨k, hk, isFirstWithout_of_gap hgap⟩
  | none =>
      have hcont := h.cont hg
      have hlt : a.cont < uint64Max := by
        have hword : 2 ^ 62 < uint64Max := by decide
        by_contra hnot
        exact Nat.lt_irrefl _ (h.bounded _ ((hcont (2 ^ 62)).mpr (by omega)))
      refine ⟨⟨a.cont, uint64Max⟩, rfl, Nat.le_max_right _ _, Nat.max_lt.mpr ⟨hlt, ho⟩, Nat.le_refl _, ?_, ?_, ?_⟩
      · intro x hx _ hc
        have hlow := (hcont x).mp hc
        have hx : max a.cont o ≤ x := hx
        omega
      · intro x hx hx'
        have hx' : x < max a.cont o := hx'
        exact (hcont x).mpr (by omega)
      · intro hc
        exact absurd hc (Nat.lt_irrefl _)

theorem Denotes.isAllTxDataAcked {a : Acked} {P : Nat → Prop} (h : a.Denotes P) {txOffset : Nat}
    (hsent : ∀ x, P x → x < txOffset) : a.isAllTxDataAcked txOffset = true ↔ ∀ x < txOffset, P x := by
  obtain ⟨hnot, hleast⟩ := h.ackedOffset_isLeast
  have heq : a.isAllTxDataAcked txOffset = true ↔ a.ackedOffset = txOffset := by
    rw [Acked.isAllTxDataAcked, ackedOffset]
    cases a.gaps with
    | none => exact decide_eq_true_iff
    | some gaps => exact decide_eq_true_iff
  rw [heq]
  constructor
  · intro hoffset x hx
    by_contra hc
    have hle := hleast hc
    omega
  · intro hall
    apply Nat.le_antisymm
    · exact hleast fun hc => Nat.lt_irrefl _ (hsent _ hc)
    · exact Nat.not_lt.mp fun hlt => hnot (hall _ hlt)

theorem Denotes.ackedOffset_mono {a : Acked} {P : Nat → Prop} (h : a.Denotes P) {offset len : Nat}
    (hle : offset + len ≤ 2 ^ 62) : a.ackedOffset ≤ (a.ackData offset len).2.ackedOffset :=
  h.ackedOffset_isLeast.2 fun hc => (h.ackData hle).ackedOffset_isLeast.1 (Or.inl hc)

theorem Denotes.ackedOffset_le {a : Acked} {P : Nat → Prop} (h : a.Denotes P) : a.ackedOffset ≤ 2 ^ 62 :=
  h.ackedOffset_isLeast.2 fun hc => Nat.lt_irrefl _ (h.bounded _ hc)

theorem Denotes.ackAll_mono {a : Acked} {P : Nat → Prop} (h : a.Denotes P) {acks : List (Nat × Nat)}
    (hle : ∀ p ∈ acks, p.1 + p.2 ≤ 2 ^ 62) : a.ackedOffset ≤ (a.ackAll acks).ackedOffset :=
  h.ackedOffset_isLeast.2 fun hc => (h.ackAll hle).ackedOffset_isLeast.1 (Or.inl hc)

/-- The reports follow one another without a gap. -/
theorem reports_count {a : Acked} {P : Nat → Prop} (h : a.Denotes P) {acks : List (Nat × Nat)}
    (hle : ∀ p ∈ acks, p.1 + p.2 ≤ 2 ^ 62) (x : Nat) :
    (a.reports acks).countP (fun r => r.begin ≤ x ∧ x < r.endOff) =
      if a.ackedOffset ≤ x ∧ x < (a.ackAll acks).ackedOffset then 1 else 0 := by
  induction acks generalizing a P with
  | nil =>
      change 0 = if a.ackedOffset ≤ x ∧ x < a.ackedOffset then 1 else 0
      rw [if_neg (by omega)]
  | cons p acks ih =>
      obtain ⟨hp, hacks⟩ := List.forall_mem_cons.mp hle
      have hmono := h.ackedOffset_mono hp
      have hmono' := (h.ackData hp).ackAll_mono hacks
      have hrest := ih (h.ackData hp) hacks
      rw [reports, List.countP_cons, hrest]
      change _ = if a.ackedOffset ≤ x ∧ x < ((a.ackData p.1 p.2).2.ackAll acks).ackedOffset then 1 else 0
      simp only [decide_eq_true_eq]
      split_ifs <;> omega

theorem reports_sum {a : Acked} {P : Nat → Prop} (h : a.Denotes P) {acks : List (Nat × Nat)}
    (hle : ∀ p ∈ acks, p.1 + p.2 ≤ 2 ^ 62) :
    ((a.reports acks).map fun r => sub64 r.endOff r.begin).sum = (a.ackAll acks).ackedOffset - a.ackedOffset := by
  induction acks generalizing a P with
  | nil => exact (Nat.sub_self _).symm
  | cons p acks ih =>
      obtain ⟨hp, hacks⟩ := List.forall_mem_cons.mp hle
      have hmono := h.ackedOffset_mono hp
      have hmono' := (h.ackData hp).ackAll_mono hacks
      have hoffset := (h.ackData hp).ackedOffset_le
      have hword : 2 ^ 62 < 2 ^ 64 := by decide
      rw [reports, List.map_cons, List.sum_cons, ih (h.ackData hp) hacks,
        sub64_of_le hmono (Nat.lt_of_le_of_lt hoffset hword)]
      change _ = ((a.ackData p.1 p.2).2.ackAll acks).ackedOffset - a.ackedOffset
      omega

/-- What the acknowledgement state of a stream says after the calls `acks`. -/
structure Agrees (acks : List (Nat × Nat)) (a : Acked) : Prop where
  ackedOffset : IsLeast {x | ¬ Pushed acks x} a.ackedOffset
  unackedRange : ∀ o < uint64Max, ∃ k, a.unackedRangeAfter o = some k ∧
    IsFirstWithout (Pushed acks) o ⟨max k.begin o, k.endOff⟩
  allAcked : ∀ txOffset, (∀ x, Pushed acks x → x < txOffset) →
    (a.isAllTxDataAcked txOffset = true ↔ ∀ x < txOffset, Pushed acks x)

/-- Whatever is acknowledged, in whichever order and however often, the state stands for the union of the
ranges, and the reports add up to its contiguous part, each byte in exactly one of them. -/
theorem ackAll_agrees (acks : List (Nat × Nat)) (hle : ∀ p ∈ acks, p.1 + p.2 ≤ 2 ^ 62 - 1) :
    Agrees acks (new.ackAll acks) ∧
      ((new.reports acks).map fun r => sub64 r.endOff r.begin).sum = (new.ackAll acks).ackedOffset ∧
      ∀ x, (new.reports acks).countP (fun r => r.begin ≤ x ∧ x < r.endOff) =
        if x < (new.ackAll acks).ackedOffset then 1 else 0 := by
  have hle : ∀ p ∈ acks, p.1 + p.2 ≤ 2 ^ 62 := fun p hp => Nat.le_trans (hle p hp) (by decide)
  have h : (new.ackAll acks).Denotes (Pushed acks) := by
    apply (new_denotes.ackAll hle).congr
    intro x
    rw [false_or]
  refine ⟨⟨h.ackedOffset_isLeast, fun _ => h.unackedRangeAfter, fun _ => h.isAllTxDataAcked⟩,
    reports_sum new_denotes hle, fun x => ?_⟩
  have hcount := reports_count new_denotes hle x
  rw [hcount]
  apply if_congr _ rfl rfl
  exact and_iff_right (Nat.zero_le x)

/-- An empty frame and a duplicate before the first frame out of order, which is bridged later. -/
theorem ackAll_agrees_bridged :
    Agrees [(0, 0), (0, 4), (0, 2), (8, 4), (3, 6)] (new.ackAll [(0, 0), (0, 4), (0, 2), (8, 4), (3, 6)]) ∧
      (new.ackAll [(0, 0), (0, 4), (0, 2), (8, 4), (3, 6)]).ackedOffset = 12 := by
  refine ⟨(ackAll_agrees [(0, 0), (0, 4), (0, 2), (8, 4), (3, 6)] (by decide)).1, by decide⟩

end Acked

end Zngtcp2.Strm
