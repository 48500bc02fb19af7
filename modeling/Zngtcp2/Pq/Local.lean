import Zngtcp2.Pq.Runs

namespace Zngtcp2.Pq

open Lib.Heap (parent parent_lt)

variable {α : Type} {less less' : α → α → Bool} {pq : Pq α}

/-- The two comparisons agree on the items in question. -/
def Agree (less less' : α → α → Bool) (P : α → Prop) : Prop :=
  ∀ a b, P a → P b → less a b = less' a b

theorem Agree.mono {P P' : α → Prop} (h : Agree less less' P) (hP : ∀ x, P' x → P x) : Agree less less' P' :=
  fun a b ha hb => h a b (hP a ha) (hP b hb)

theorem Agree.minIndex (h : Agree less less' pq.Holds) (k : Nat) : pq.minIndex less k = pq.minIndex less' k := by
  have hq {i j : Nat} (hi : i < pq.length) (hj : j < pq.length) : less (pq.q i) (pq.q j) = less' (pq.q i) (pq.q j) :=
    h _ _ ⟨i, hi, rfl⟩ ⟨j, hj, rfl⟩
  simp only [Pq.minIndex]
  by_cases hnone : pq.length ≤ k * 2 + 1
  · rw [if_pos hnone, if_pos hnone]
  have hk : k < pq.length := by omega
  rw [if_neg hnone, if_neg hnone, hq (by omega) hk]
  by_cases hone : pq.length ≤ k * 2 + 1 + 1
  · rw [if_pos hone, if_pos hone]
  · rw [if_neg hone, if_neg hone]
    by_cases hleft : less' (pq.q (k * 2 + 1)) (pq.q k)
    · rw [if_pos hleft, hq (by omega) (by omega)]
    · rw [if_neg hleft, hq (by omega) hk]

/-- A heap stays one when the comparison changes elsewhere. -/
theorem IsHeap.congr (h : pq.IsHeap less) (hagree : Agree less less' pq.Holds) : pq.IsHeap less' := by
  refine ⟨fun i hi hlt hless => h.ordered i hi hlt ?_, h.indexed, h.length_le⟩
  rw [Lt, hagree _ _ ⟨i, hlt, rfl⟩ ⟨parent i, Nat.lt_trans (parent_lt hi) hlt, rfl⟩]
  exact hless

variable [DecidableEq α]

/-- The position that an item outside the queue has noted does not matter. -/
theorem IsHeap.withIndex (h : pq.IsHeap less) {item : α} (hitem : ¬ pq.Holds item) (i : Nat) :
    ({ pq with index := Function.update pq.index item i }).IsHeap less := by
  refine ⟨h.ordered, fun j hj => ?_, h.length_le⟩
  have hne : pq.q j ≠ item := fun hc => hitem ⟨j, hj, hc⟩
  exact (Function.update_of_ne hne _ _).trans (h.indexed j hj)

theorem Agree.bubbleUp (h : Agree less less' pq.Holds) {k : Nat} (hk : k < pq.length) :
    pq.bubbleUp less k = pq.bubbleUp less' k := by
  induction k using Nat.strongRecOn generalizing pq with
  | ind k ih =>
      rw [Pq.bubbleUp.eq_def less, Pq.bubbleUp.eq_def less']
      by_cases hzero : k = 0
      · rw [dif_pos hzero, dif_pos hzero]
      have hp := parent_lt (Nat.pos_of_ne_zero hzero)
      rw [dif_neg hzero, dif_neg hzero, h _ _ ⟨k, hk, rfl⟩ ⟨parent k, Nat.lt_trans hp hk, rfl⟩]
      have hswap := swap_rearranged pq (Nat.lt_trans hp hk) hk
      rw [ih (parent k) hp (h.mono fun x => (hswap.holds_iff x).mp) (Nat.lt_trans hp hk)]

theorem Agree.bubbleDown (h : Agree less less' pq.Holds) (k : Nat) : pq.bubbleDown less k = pq.bubbleDown less' k := by
  induction hn : pq.length - k using Nat.strongRecOn generalizing pq k with
  | ind n ih =>
      rw [Pq.bubbleDown.eq_def less, Pq.bubbleDown.eq_def less']
      rw [h.minIndex k]
      by_cases hstop : pq.minIndex less' k = k
      · rw [dif_pos hstop, dif_pos hstop]
      obtain ⟨hgt, hlt⟩ := (minIndex_cases less' pq k).resolve_left hstop
      have hswap := swap_rearranged pq (Nat.lt_trans hgt hlt) hlt
      have hnext : (pq.swap k (pq.minIndex less' k)).length - pq.minIndex less' k < n :=
        hn ▸ Nat.sub_lt_sub_left (Nat.lt_trans hgt hlt) hgt
      rw [dif_neg hstop, dif_neg hstop, ih _ hnext (h.mono fun x => (hswap.holds_iff x).mp) _ rfl]

theorem place_index_of_ne {i : Nat} {item x : α} (hx : x ≠ item) : (pq.place i item).index x = pq.index x :=
  Function.update_of_ne hx _ _

theorem swap_index {i j : Nat} (hi : i < pq.length) (hj : j < pq.length) {x : α} (hx : ¬ pq.Holds x) :
    (pq.swap i j).index x = pq.index x := by
  have hne {k : Nat} (hk : k < pq.length) : x ≠ pq.q k := fun hc => hx ⟨k, hk, hc.symm⟩
  rw [swap, place_index_of_ne (hne hi), place_index_of_ne (hne hj)]

/-- Only the items in the queue are told a new position. -/
theorem bubbleUp_index {k : Nat} (hk : k < pq.length) {x : α} (hx : ¬ pq.Holds x) :
    (pq.bubbleUp less k).index x = pq.index x := by
  induction k using Nat.strongRecOn generalizing pq with
  | ind k ih =>
      rw [Pq.bubbleUp]
      split_ifs with hzero
      · rfl
      · have hp := parent_lt (Nat.pos_of_ne_zero hzero)
        have hswap := swap_rearranged pq (Nat.lt_trans hp hk) hk
        rw [@ih (parent k) hp (pq.swap (parent k) k) (Nat.lt_trans hp hk) (fun hc => hx ((hswap.holds_iff x).mp hc)),
          swap_index (Nat.lt_trans hp hk) hk hx]
      · rfl

theorem bubbleDown_index (k : Nat) {x : α} (hx : ¬ pq.Holds x) :
    (pq.bubbleDown less k).index x = pq.index x := by
  induction hn : pq.length - k using Nat.strongRecOn generalizing pq k with
  | ind n ih =>
      rw [Pq.bubbleDown]
      split_ifs with hstop
      · rfl
      · obtain ⟨hgt, hlt⟩ := (minIndex_cases less pq k).resolve_left hstop
        have hk := Nat.lt_trans hgt hlt
        have hswap := swap_rearranged pq hk hlt
        rw [@ih (pq.length - pq.minIndex less k) (by omega) (pq.swap k (pq.minIndex less k)) _
          (fun hc => hx ((hswap.holds_iff x).mp hc)) rfl,
          swap_index hk hlt hx]

/-- The array before the new item goes up. -/
theorem append_holds {capacity : Nat} {item x : α} :
    ({ pq with capacity := capacity, length := pq.length + 1 }.place pq.length item).Holds x → x = item ∨ pq.Holds x := by
  rintro ⟨i, hi, rfl⟩
  have hi : i < pq.length + 1 := hi
  by_cases hlast : i = pq.length
  · subst hlast
    exact Or.inl (Function.update_self _ _ _)
  · exact Or.inr ⟨i, by omega, (Function.update_of_ne hlast _ _).symm⟩

section Order

variable [IsStrictWeakOrder α (Lt less')]

/-- A push, where the comparison is only known to be an order on the items in question. -/
theorem push_local (h : pq.IsHeap less') {item : α} (hnew : ¬ pq.Holds item)
    (hagree : Agree less less' fun x => x = item ∨ pq.Holds x) (alloc : Bool) :
    pq.push less item alloc = (.nomem, pq) ∨
      ∃ pq', pq.push less item alloc = (.ok, pq') ∧ pq'.IsHeap less' ∧ (∀ x, pq'.Holds x ↔ x = item ∨ pq.Holds x) ∧
        ∀ x, ¬ pq.Holds x → x ≠ item → pq'.index x = pq.index x := by
  have heq : pq.push less item alloc = pq.push less' item alloc := by
    rw [push, push]
    split
    · rfl
    · simp only
      rw [Agree.bubbleUp (hagree.mono fun x => append_holds) (Nat.lt_succ_self pq.length)]
  rw [heq]
  rcases push_spec less' h hnew alloc with hpush | ⟨pq', hpush, hheap, hholds⟩
  · exact Or.inl hpush
  · refine Or.inr ⟨pq', hpush, hheap, hholds, fun x hx hne => ?_⟩
    rw [push] at hpush
    split at hpush
    · cases hpush
    · cases hpush
      rw [bubbleUp_index (Nat.lt_succ_self pq.length) (fun hc => (append_holds hc).elim hne hx), place_index_of_ne hne]

theorem pop_local (h : pq.IsHeap less') (hne : pq.length ≠ 0) (hagree : Agree less less' pq.Holds) :
    ∃ pq', pq.pop less = .ok pq' ∧ pq'.IsHeap less' ∧ (∀ x, pq'.Holds x ↔ pq.Holds x ∧ x ≠ pq.q 0) ∧
      ∀ x, ¬ pq.Holds x → pq'.index x = pq.index x := by
  obtain ⟨-, hmoved⟩ := moveLast_spec h.indexed (Nat.pos_of_ne_zero hne)
  have heq : pq.pop less = pq.pop less' := by
    rw [pop, pop, if_neg hne, if_neg hne]
    exact congrArg Except.ok (Agree.bubbleDown (hagree.mono fun x hx => ((hmoved x).mp hx).1) 0)
  obtain ⟨pq', hpop, hheap, hholds⟩ := pop_spec less' h hne
  refine ⟨pq', heq.trans hpop, hheap, hholds, fun x hx => ?_⟩
  rw [pop, if_neg hne] at hpop
  cases hpop
  have hlast : x ≠ pq.q (pq.length - 1) := fun hc => hx ⟨pq.length - 1, by omega, hc.symm⟩
  exact (bubbleDown_index 0 fun hc => hx ((hmoved x).mp hc).1).trans (place_index_of_ne hlast)

theorem remove_eq (hindexed : pq.Indexed) {k : Nat} (hk : k < pq.length) (less : α → α → Bool) :
    pq.remove less (pq.q k) =
      if k = 0 then pq.pop less
      else if k = pq.length - 1 then .ok { pq with length := pq.length - 1 }
      else if less (pq.q k) (pq.q (pq.length - 1)) then .ok ((pq.moveLast k).bubbleDown less k)
      else .ok ((pq.moveLast k).bubbleUp less k) := by
  have hmoved : (pq.moveLast k).q k = pq.q (pq.length - 1) := Function.update_self _ _ _
  rw [remove, hindexed k hk]
  simp only [ne_eq, not_true_eq_false, if_false]
  change (if k = 0 then _ else if _ then _ else if less (pq.q k) ((pq.moveLast k).q k) = true then _ else _) = _
  rw [hmoved]
  rfl

theorem remove_local (h : pq.IsHeap less') {item : α} (hitem : pq.Holds item) (hagree : Agree less less' pq.Holds) :
    ∃ pq', pq.remove less item = .ok pq' ∧ pq'.IsHeap less' ∧ (∀ x, pq'.Holds x ↔ pq.Holds x ∧ x ≠ item) ∧
      ∀ x, ¬ pq.Holds x → pq'.index x = pq.index x := by
  obtain ⟨pq', hremove, hheap, hholds⟩ := remove_spec less' h hitem
  obtain ⟨k, hk, rfl⟩ := hitem
  obtain ⟨-, hmoved⟩ := moveLast_spec h.indexed hk
  have hsub : Agree less less' (pq.moveLast k).Holds := hagree.mono fun x hx => ((hmoved x).mp hx).1
  have hindex {x : α} (hx : ¬ pq.Holds x) : ¬ (pq.moveLast k).Holds x ∧ (pq.moveLast k).index x = pq.index x :=
    ⟨fun hc => hx ((hmoved x).mp hc).1, place_index_of_ne fun hc => hx ⟨pq.length - 1, by omega, hc.symm⟩⟩
  rw [remove_eq h.indexed hk] at hremove
  rw [remove_eq h.indexed hk]
  by_cases hzero : k = 0
  · rw [hzero, if_pos rfl]
    exact pop_local h (by omega) hagree
  rw [if_neg hzero] at hremove ⊢
  by_cases hlast : k = pq.length - 1
  · rw [if_pos hlast] at hremove ⊢
    cases hremove
    exact ⟨_, rfl, hheap, hholds, fun _ _ => rfl⟩
  have hlen : k < (pq.moveLast k).length := show k < pq.length - 1 by omega
  rw [if_neg hlast] at hremove ⊢
  rw [hagree _ _ ⟨k, hk, rfl⟩ ⟨pq.length - 1, by omega, rfl⟩, hsub.bubbleDown, hsub.bubbleUp hlen]
  refine ⟨pq', hremove, hheap, hholds, fun x hx => ?_⟩
  split at hremove
  · cases hremove
    exact (bubbleDown_index k (hindex hx).1).trans (hindex hx).2
  · cases hremove
    exact (bubbleUp_index hlen (hindex hx).1).trans (hindex hx).2

end Order

end Zngtcp2.Pq
