import Mathlib.Data.Finset.Basic
import Zngtcp2.Lib.Run
import Zngtcp2.Pq.Model

namespace Zngtcp2

open Lib.Heap (parent parent_lt Ordered UpOrdered DownOrdered)
open Lib.Run

namespace Pq

variable {α : Type} (less : α → α → Bool)

abbrev Lt (a b : α) : Prop :=
  less a b = true

/-- The item is in the queue. -/
def Holds (pq : Pq α) (x : α) : Prop :=
  ∃ i < pq.length, pq.q i = x

def Indexed (pq : Pq α) : Prop :=
  ∀ i < pq.length, pq.index (pq.q i) = i

/-- The array is a binary heap, and every queued item knows where it is. -/
structure IsHeap (pq : Pq α) : Prop where
  ordered : Ordered (Lt less) pq.length pq.q
  indexed : pq.Indexed
  length_le : pq.length ≤ pq.capacity

/-- The same items in another order. -/
structure Rearranged (pq pq' : Pq α) : Prop where
  length_eq : pq'.length = pq.length
  capacity_eq : pq'.capacity = pq.capacity
  holds_iff : ∀ x, pq'.Holds x ↔ pq.Holds x

theorem Rearranged.refl (pq : Pq α) : Rearranged pq pq :=
  ⟨rfl, rfl, fun _ => Iff.rfl⟩

theorem Rearranged.trans {pq pq' pq'' : Pq α} (h : Rearranged pq pq') (h' : Rearranged pq' pq'') :
    Rearranged pq pq'' :=
  ⟨h'.length_eq.trans h.length_eq, h'.capacity_eq.trans h.capacity_eq,
    fun x => (h'.holds_iff x).trans (h.holds_iff x)⟩

theorem Indexed.ne {pq : Pq α} (h : pq.Indexed) {i j : Nat} (hi : i < pq.length) (hj : j < pq.length) (hij : i ≠ j) :
    pq.q i ≠ pq.q j := by
  intro heq
  have hindex := h i hi
  rw [heq, h j hj] at hindex
  exact hij hindex.symm

/-- The choice among an item and its children. -/
theorem minIndex_spec [IsStrictWeakOrder α (Lt less)] (pq : Pq α) (k : Nat) :
    (∀ i, 0 < i → i < pq.length → parent i = k → ¬ Lt less (pq.q i) (pq.q (pq.minIndex less k))) ∧
      (pq.minIndex less k ≠ k → parent (pq.minIndex less k) = k ∧ 0 < pq.minIndex less k ∧
        pq.minIndex less k < pq.length ∧ Lt less (pq.q (pq.minIndex less k)) (pq.q k)) := by
  have hself (a : α) : ¬ Lt less a a := irrefl a
  have hleft : parent (k * 2 + 1) = k := by
    rw [parent]
    omega
  have hright : parent (k * 2 + 1 + 1) = k := by
    rw [parent]
    omega
  have hchildren {i : Nat} (hi : 0 < i) (hp : parent i = k) : i = k * 2 + 1 ∨ i = k * 2 + 1 + 1 := by
    rw [Lib.Heap.parent_eq_iff hi] at hp
    omega
  rw [minIndex]
  by_cases hnone : pq.length ≤ k * 2 + 1
  · simp only [if_pos hnone]
    refine ⟨fun i hi hlen hp => ?_, fun h => absurd rfl h⟩
    rcases hchildren hi hp with rfl | rfl <;> omega
  simp only [if_neg hnone]
  by_cases hl : Lt less (pq.q (k * 2 + 1)) (pq.q k)
  · simp only [if_pos hl]
    by_cases hone : pq.length ≤ k * 2 + 1 + 1
    · simp only [if_pos hone]
      refine ⟨fun i hi hlen hp => ?_, fun _ => ⟨hleft, by omega, by omega, hl⟩⟩
      rcases hchildren hi hp with rfl | rfl
      · exact hself _
      · omega
    simp only [if_neg hone]
    by_cases hr : Lt less (pq.q (k * 2 + 1 + 1)) (pq.q (k * 2 + 1))
    · simp only [if_pos hr]
      refine ⟨fun i hi _ hp => ?_, fun _ => ⟨hright, by omega, by omega, IsTrans.trans _ _ _ hr hl⟩⟩
      rcases hchildren hi hp with rfl | rfl
      · exact asymm hr
      · exact hself _
    · simp only [if_neg hr]
      refine ⟨fun i hi _ hp => ?_, fun _ => ⟨hleft, by omega, by omega, hl⟩⟩
      rcases hchildren hi hp with rfl | rfl
      · exact hself _
      · exact hr
  · simp only [if_neg hl]
    by_cases hone : pq.length ≤ k * 2 + 1 + 1
    · simp only [if_pos hone]
      refine ⟨fun i hi hlen hp => ?_, fun h => absurd rfl h⟩
      rcases hchildren hi hp with rfl | rfl
      · exact hl
      · omega
    simp only [if_neg hone]
    by_cases hr : Lt less (pq.q (k * 2 + 1 + 1)) (pq.q k)
    · simp only [if_pos hr]
      refine ⟨fun i hi _ hp => ?_, fun _ => ⟨hright, by omega, by omega, hr⟩⟩
      rcases hchildren hi hp with rfl | rfl
      · exact fun hc => hl (IsTrans.trans _ _ _ hc hr)
      · exact hself _
    · simp only [if_neg hr]
      refine ⟨fun i hi _ hp => ?_, fun h => absurd rfl h⟩
      rcases hchildren hi hp with rfl | rfl
      · exact hl
      · exact hr

variable [DecidableEq α]

theorem swap_q (pq : Pq α) (i j : Nat) : (pq.swap i j).q = Lib.Heap.swap pq.q i j := by
  funext x
  simp only [swap, place]
  by_cases hj : x = j
  · rw [hj, Function.update_self, Lib.Heap.swap_right]
  · rw [Function.update_of_ne hj]
    by_cases hi : x = i
    · rw [hi, Function.update_self, Lib.Heap.swap_left]
    · rw [Function.update_of_ne hi, Lib.Heap.swap_of_ne hi hj]

theorem swap_indexed {pq : Pq α} (h : pq.Indexed) {i j : Nat} (hi : i < pq.length) (hj : j < pq.length)
    (hij : i ≠ j) : (pq.swap i j).Indexed := by
  intro x hx
  have hx : x < pq.length := hx
  rw [swap_q]
  simp only [swap, place]
  by_cases hxi : x = i
  · rw [hxi, Lib.Heap.swap_left, Function.update_of_ne (h.ne hj hi (Ne.symm hij)), Function.update_self]
  by_cases hxj : x = j
  · rw [hxj, Lib.Heap.swap_right, Function.update_self]
  · rw [Lib.Heap.swap_of_ne hxi hxj, Function.update_of_ne (h.ne hx hi hxi), Function.update_of_ne (h.ne hx hj hxj)]
    exact h x hx

theorem swap_rearranged (pq : Pq α) {i j : Nat} (hi : i < pq.length) (hj : j < pq.length) :
    Rearranged pq (pq.swap i j) := by
  refine ⟨rfl, rfl, fun x => ?_⟩
  rw [Holds, Holds, swap_q]
  constructor
  · rintro ⟨k, hk, rfl⟩
    by_cases hki : k = i
    · rw [hki, Lib.Heap.swap_left]
      exact ⟨j, hj, rfl⟩
    by_cases hkj : k = j
    · rw [hkj, Lib.Heap.swap_right]
      exact ⟨i, hi, rfl⟩
    · rw [Lib.Heap.swap_of_ne hki hkj]
      exact ⟨k, hk, rfl⟩
  · rintro ⟨k, hk, rfl⟩
    by_cases hki : k = i
    · rw [hki]
      exact ⟨j, hj, Lib.Heap.swap_right _ _ _⟩
    by_cases hkj : k = j
    · rw [hkj]
      exact ⟨i, hi, Lib.Heap.swap_left _ _ _⟩
    · exact ⟨k, hk, Lib.Heap.swap_of_ne hki hkj⟩

section Order

variable [IsStrictWeakOrder α (Lt less)]

theorem bubbleUp_spec {pq : Pq α} {k : Nat} (hk : k < pq.length) (hle : pq.length ≤ pq.capacity) (hindexed : pq.Indexed)
    (hup : UpOrdered (Lt less) pq.length k pq.q) :
    (pq.bubbleUp less k).IsHeap less ∧ Rearranged pq (pq.bubbleUp less k) := by
  induction k using Nat.strongRecOn generalizing pq with
  | ind k ih =>
      rw [bubbleUp]
      by_cases hzero : k = 0
      · rw [dif_pos hzero]
        exact ⟨⟨hup.finish (fun hpos => absurd hzero (by omega)), hindexed, hle⟩, Rearranged.refl pq⟩
      rw [dif_neg hzero]
      have hp := parent_lt (Nat.pos_of_ne_zero hzero)
      by_cases hlt : Lt less (pq.q k) (pq.q (parent k))
      · rw [if_pos hlt]
        have hup' := hup.swap (Nat.pos_of_ne_zero hzero) hk hlt
        rw [← swap_q] at hup'
        have hswap := swap_rearranged pq (show parent k < pq.length by omega) hk
        obtain ⟨hheap, hsame⟩ := @ih (parent k) hp (pq.swap (parent k) k) (Nat.lt_trans hp hk) hle
          (swap_indexed hindexed (by omega) hk (by omega)) hup'
        exact ⟨hheap, hswap.trans hsame⟩
      · rw [if_neg hlt]
        exact ⟨⟨hup.finish (fun _ => hlt), hindexed, hle⟩, Rearranged.refl pq⟩

theorem bubbleDown_spec {pq : Pq α} {k : Nat} (hle : pq.length ≤ pq.capacity) (hindexed : pq.Indexed)
    (hdown : DownOrdered (Lt less) pq.length k pq.q) :
    (pq.bubbleDown less k).IsHeap less ∧ Rearranged pq (pq.bubbleDown less k) := by
  induction hn : pq.length - k using Nat.strongRecOn generalizing pq k with
  | ind n ih =>
      obtain ⟨hmin, hchild⟩ := minIndex_spec less pq k
      rw [bubbleDown]
      by_cases hstop : pq.minIndex less k = k
      · rw [dif_pos hstop]
        rw [hstop] at hmin
        exact ⟨⟨hdown.finish hmin, hindexed, hle⟩, Rearranged.refl pq⟩
      · rw [dif_neg hstop]
        obtain ⟨hparent, hpos, hlen, hlt⟩ := hchild hstop
        have hgt := Lib.Heap.lt_of_parent hpos hparent
        have hdown' := hdown.swap hpos hlen hparent hlt hmin
        rw [← swap_q] at hdown'
        have hswap := swap_rearranged pq (show k < pq.length by omega) hlen
        obtain ⟨hheap, hsame⟩ := @ih (pq.length - pq.minIndex less k) (by omega) (pq.swap k (pq.minIndex less k))
          (pq.minIndex less k) hle (swap_indexed hindexed (by omega) hlen (by omega)) hdown' rfl
        exact ⟨hheap, hswap.trans hsame⟩

theorem push_spec {pq : Pq α} (h : pq.IsHeap less) {item : α} (hnew : ¬ pq.Holds item) (alloc : Bool) :
    pq.push less item alloc = (.nomem, pq) ∨
      ∃ pq', pq.push less item alloc = (.ok, pq') ∧ pq'.IsHeap less ∧ ∀ x, pq'.Holds x ↔ x = item ∨ pq.Holds x := by
  have hle := h.length_le
  rw [push]
  by_cases hfull : pq.capacity ≤ pq.length ∧ alloc = false
  · rw [if_pos hfull]
    exact Or.inl rfl
  rw [if_neg hfull]
  refine Or.inr ⟨_, rfl, ?_⟩
  set pq₁ : Pq α := { pq with
    capacity := if pq.capacity ≤ pq.length then max 4 (pq.capacity * 2) else pq.capacity
    length := pq.length + 1 }.place pq.length item with hpq₁
  have hq : pq₁.q = Function.update pq.q pq.length item := rfl
  have hold {i : Nat} (hi : i < pq.length) : pq₁.q i = pq.q i := by
    rw [hq, Function.update_of_ne (by omega)]
  have hlast : pq₁.q pq.length = item := by
    rw [hq, Function.update_self]
  have hcapacity : pq₁.length ≤ pq₁.capacity := by
    simp only [hpq₁, place]
    split_ifs <;> omega
  have hindexed : pq₁.Indexed := by
    intro i hi
    have hindex : pq₁.index = Function.update pq.index item pq.length := rfl
    by_cases hend : i = pq.length
    · rw [hend, hlast, hindex, Function.update_self]
    · have hlt : i < pq.length := by
        have hi : i < pq.length + 1 := hi
        omega
      rw [hold hlt, hindex, Function.update_of_ne (fun hc => hnew ⟨i, hlt, hc⟩)]
      exact h.indexed i hlt
  obtain ⟨hheap, hsame⟩ := bubbleUp_spec less (Nat.lt_succ_self pq.length) hcapacity hindexed (h.ordered.push item)
  refine ⟨hheap, fun x => (hsame.holds_iff x).trans ?_⟩
  constructor
  · rintro ⟨i, hi, rfl⟩
    by_cases hend : i = pq.length
    · rw [hend]
      exact Or.inl hlast
    · have hlt : i < pq.length := by
        have hi : i < pq.length + 1 := hi
        omega
      exact Or.inr ⟨i, hlt, (hold hlt).symm⟩
  · rintro (rfl | ⟨i, hi, rfl⟩)
    · exact ⟨pq.length, Nat.lt_succ_self _, hlast⟩
    · exact ⟨i, Nat.lt_succ_of_lt hi, hold hi⟩

/-- The last item takes the place of the one at `k`. -/
def moveLast (pq : Pq α) (k : Nat) : Pq α :=
  { pq with length := pq.length - 1 }.place k (pq.q (pq.length - 1))

theorem moveLast_spec {pq : Pq α} (h : pq.Indexed) {k : Nat} (hk : k < pq.length) :
    (pq.moveLast k).Indexed ∧ ∀ x, (pq.moveLast k).Holds x ↔ pq.Holds x ∧ x ≠ pq.q k := by
  have hq : (pq.moveLast k).q = Function.update pq.q k (pq.q (pq.length - 1)) := rfl
  have hother {i : Nat} (hik : i ≠ k) : (pq.moveLast k).q i = pq.q i := by
    rw [hq, Function.update_of_ne hik]
  have hmoved : (pq.moveLast k).q k = pq.q (pq.length - 1) := by
    rw [hq, Function.update_self]
  refine ⟨fun i hi => ?_, fun x => ?_⟩
  · have hi : i < pq.length - 1 := hi
    have hindex : (pq.moveLast k).index = Function.update pq.index (pq.q (pq.length - 1)) k := rfl
    by_cases hik : i = k
    · rw [hik, hmoved, hindex, Function.update_self]
    · rw [hother hik, hindex, Function.update_of_ne (h.ne (by omega) (by omega) (by omega))]
      exact h i (by omega)
  · constructor
    · rintro ⟨i, hi, rfl⟩
      have hi : i < pq.length - 1 := hi
      by_cases hik : i = k
      · rw [hik, hmoved]
        exact ⟨⟨pq.length - 1, by omega, rfl⟩, h.ne (by omega) hk (by omega)⟩
      · rw [hother hik]
        exact ⟨⟨i, by omega, rfl⟩, h.ne (by omega) hk hik⟩
    · rintro ⟨⟨i, hi, rfl⟩, hne⟩
      have hik : i ≠ k := fun hc => hne (congrArg pq.q hc)
      by_cases hend : i = pq.length - 1
      · exact ⟨k, show k < pq.length - 1 by omega, by rw [hmoved, hend]⟩
      · exact ⟨i, show i < pq.length - 1 by omega, hother hik⟩

theorem pop_spec {pq : Pq α} (h : pq.IsHeap less) (hne : pq.length ≠ 0) :
    ∃ pq', pq.pop less = .ok pq' ∧ pq'.IsHeap less ∧ ∀ x, pq'.Holds x ↔ pq.Holds x ∧ x ≠ pq.q 0 := by
  obtain ⟨hindexed, hholds⟩ := moveLast_spec h.indexed (Nat.pos_of_ne_zero hne)
  have hle := h.length_le
  have hdown : DownOrdered (Lt less) (pq.moveLast 0).length 0 (pq.moveLast 0).q := by
    apply (h.ordered.mono (Nat.sub_le pq.length 1)).replace_down
    · intro hc
      omega
    · intro hc
      omega
  obtain ⟨hheap, hsame⟩ := bubbleDown_spec less (show pq.length - 1 ≤ pq.capacity by omega) hindexed hdown
  refine ⟨_, ?_, hheap, fun x => (hsame.holds_iff x).trans (hholds x)⟩
  rw [pop, if_neg hne]
  rfl

theorem remove_spec {pq : Pq α} (h : pq.IsHeap less) {item : α} (hitem : pq.Holds item) :
    ∃ pq', pq.remove less item = .ok pq' ∧ pq'.IsHeap less ∧ ∀ x, pq'.Holds x ↔ pq.Holds x ∧ x ≠ item := by
  obtain ⟨k, hk, rfl⟩ := hitem
  have hle := h.length_le
  rw [remove, h.indexed k hk]
  simp only [ne_eq, not_true_eq_false, if_false]
  by_cases hzero : k = 0
  · rw [if_pos hzero, hzero]
    exact pop_spec less h (by omega)
  rw [if_neg hzero]
  by_cases hlast : k = pq.length - 1
  · rw [if_pos hlast]
    refine ⟨_, rfl, ⟨h.ordered.mono (Nat.sub_le _ _), fun i hi => ?_, by simp only; omega⟩, fun x => ?_⟩
    · have hi : i < pq.length - 1 := hi
      exact h.indexed i (by omega)
    · constructor
      · rintro ⟨i, hi, rfl⟩
        have hi : i < pq.length - 1 := hi
        exact ⟨⟨i, by omega, rfl⟩, h.indexed.ne (by omega) hk (by omega)⟩
      · rintro ⟨⟨i, hi, rfl⟩, hne⟩
        have hik : i ≠ k := fun hc => hne (congrArg pq.q hc)
        exact ⟨i, show i < pq.length - 1 by omega, rfl⟩
  rw [if_neg hlast]
  obtain ⟨hindexed, hholds⟩ := moveLast_spec h.indexed hk
  have hlen : k < pq.length - 1 := by omega
  obtain ⟨hdown, hup⟩ := (h.ordered.mono (Nat.sub_le pq.length 1)).replace hlen (pq.q (pq.length - 1))
  have hmoved : (pq.moveLast k).q k = pq.q (pq.length - 1) := Function.update_self _ _ _
  change ∃ pq', (if Lt less (pq.q k) ((pq.moveLast k).q k) then _ else _) = _ ∧ _
  rw [hmoved]
  by_cases hlt : Lt less (pq.q k) (pq.q (pq.length - 1))
  · rw [if_pos hlt]
    obtain ⟨hheap, hsame⟩ := bubbleDown_spec less (show pq.length - 1 ≤ pq.capacity by omega) hindexed (hdown hlt)
    exact ⟨_, rfl, hheap, fun x => (hsame.holds_iff x).trans (hholds x)⟩
  · rw [if_neg hlt]
    obtain ⟨hheap, hsame⟩ := bubbleUp_spec less hlen (show pq.length - 1 ≤ pq.capacity by omega) hindexed (hup hlt)
    exact ⟨_, rfl, hheap, fun x => (hsame.holds_iff x).trans (hholds x)⟩

omit [DecidableEq α] in
theorem top_spec {pq : Pq α} (h : pq.IsHeap less) (hne : pq.length ≠ 0) :
    pq.top = .ok (pq.q 0) ∧ pq.Holds (pq.q 0) ∧ ∀ x, pq.Holds x → ¬ Lt less x (pq.q 0) := by
  refine ⟨if_neg hne, ⟨0, Nat.pos_of_ne_zero hne, rfl⟩, ?_⟩
  rintro x ⟨i, hi, rfl⟩
  exact h.ordered.root i hi

end Order

end Pq

/-- A priority queue, and the items that were pushed and have not left it. -/
structure PqRun (α : Type) where
  pq : Pq α
  queued : Finset α

namespace PqRun

variable {α : Type} [DecidableEq α] (less : α → α → Bool)

inductive Op (α : Type)
  | push (item : α) (alloc : Bool)
  | pop
  | remove (item : α)

def start (q : Nat → α) (index : α → Nat) : PqRun α :=
  ⟨Pq.init q index, ∅⟩

def step (s : PqRun α) : Op α → Except Fault (PqRun α)
  | .push item alloc =>
      match s.pq.push less item alloc with
      | (.ok, pq) => .ok ⟨pq, insert item s.queued⟩
      | (_, pq) => .ok ⟨pq, s.queued⟩
  | .pop => do
      let item ← s.pq.top
      let pq ← s.pq.pop less
      .ok ⟨pq, s.queued.erase item⟩
  | .remove item => do
      let pq ← s.pq.remove less item
      .ok ⟨pq, s.queued.erase item⟩

/-- The callers push no item that is queued, and take none out that is not. -/
def Allowed (s : PqRun α) : Op α → Prop
  | .push item _ => item ∉ s.queued
  | .pop => s.queued ≠ ∅
  | .remove item => item ∈ s.queued

instance (s : PqRun α) : (op : Op α) → Decidable (Allowed s op)
  | .push item _ => inferInstanceAs (Decidable (item ∉ s.queued))
  | .pop => inferInstanceAs (Decidable (s.queued ≠ ∅))
  | .remove item => inferInstanceAs (Decidable (item ∈ s.queued))

structure Inv (s : PqRun α) : Prop where
  heap : s.pq.IsHeap less
  mem_iff : ∀ x, x ∈ s.queued ↔ s.pq.Holds x

omit [DecidableEq α] in
theorem start_inv (q : Nat → α) (index : α → Nat) : (start q index).Inv less := by
  refine ⟨⟨fun i _ hi => ?_, fun i hi => ?_, Nat.le_refl 0⟩, fun x => ⟨fun hx => ?_, fun hx => ?_⟩⟩
  · exact absurd hi (Nat.not_lt_zero i)
  · exact absurd hi (Nat.not_lt_zero i)
  · exact absurd hx (Finset.notMem_empty x)
  · obtain ⟨i, hi, -⟩ := hx
    exact absurd hi (Nat.not_lt_zero i)

omit [DecidableEq α] in
theorem Inv.length_ne {s : PqRun α} (h : s.Inv less) (hne : s.queued ≠ ∅) : s.pq.length ≠ 0 := by
  obtain ⟨x, hx⟩ := Finset.nonempty_iff_ne_empty.mpr hne
  obtain ⟨i, hi, -⟩ := (h.mem_iff x).mp hx
  omega

variable [IsStrictWeakOrder α (Pq.Lt less)]

theorem step_inv (s : PqRun α) (op : Op α) (h : s.Inv less) (hop : Allowed s op) :
    ∃ s', step less s op = .ok s' ∧ s'.Inv less := by
  cases op with
  | push item alloc =>
      have hnew : ¬ s.pq.Holds item := fun hc => hop ((h.mem_iff item).mpr hc)
      rcases Pq.push_spec less h.heap hnew alloc with hpush | ⟨pq', hpush, hheap, hholds⟩
      · exact ⟨s, by rw [step, hpush], h⟩
      · refine ⟨⟨pq', insert item s.queued⟩, by rw [step, hpush], hheap, fun x => ?_⟩
        rw [Finset.mem_insert, hholds, h.mem_iff]
  | pop =>
      have hne := h.length_ne less hop
      obtain ⟨htop, -, -⟩ := Pq.top_spec less h.heap hne
      obtain ⟨pq', hpop, hheap, hholds⟩ := Pq.pop_spec less h.heap hne
      refine ⟨⟨pq', s.queued.erase (s.pq.q 0)⟩, by simp only [step, htop, hpop, bind, Except.bind], hheap, fun x => ?_⟩
      rw [Finset.mem_erase, hholds, h.mem_iff, and_comm]
  | remove item =>
      obtain ⟨pq', hremove, hheap, hholds⟩ := Pq.remove_spec less h.heap ((h.mem_iff item).mp hop)
      refine ⟨⟨pq', s.queued.erase item⟩, by simp only [step, hremove, bind, Except.bind], hheap, fun x => ?_⟩
      rw [Finset.mem_erase, hholds, h.mem_iff, and_comm]

/-- After every sequence of operations the array is a heap that holds the queued items, each of which knows
its position, and the top is a minimal one. -/
theorem run_heap (q : Nat → α) (index : α → Nat) {ops : List (Op α)}
    (hg : Guarded (step less) Allowed (start q index) ops) :
    ∃ s, run (step less) (start q index) ops = .ok s ∧ s.pq.IsHeap less ∧ (∀ x, x ∈ s.queued ↔ s.pq.Holds x) ∧
      (s.queued ≠ ∅ → ∃ item, s.pq.top = .ok item ∧ item ∈ s.queued ∧ ∀ x ∈ s.queued, less x item = false) := by
  have hstep : ∀ s op, s.Inv less → Allowed s op → ∃ s', step less s op = .ok s' ∧ s'.Inv less := step_inv less
  obtain ⟨s, hrun, hs⟩ := run_invariant hstep (start_inv less q index) hg
  refine ⟨s, hrun, hs.heap, hs.mem_iff, fun hne => ?_⟩
  obtain ⟨htop, hholds, hmin⟩ := Pq.top_spec less hs.heap (hs.length_ne less hne)
  refine ⟨_, htop, (hs.mem_iff _).mpr hholds, fun x hx => ?_⟩
  exact Bool.not_eq_true _ ▸ hmin x ((hs.mem_iff x).mp hx)

/-- `retired_ts_less` on connection IDs with a sequence number and the time when they were retired. -/
def retiredTsLess (a b : Nat × Nat) : Bool :=
  a.2 < b.2

instance retiredTsLess_isStrictWeakOrder : IsStrictWeakOrder (Nat × Nat) (Pq.Lt retiredTsLess) where
  irrefl a := by
    simp [Pq.Lt, retiredTsLess]
  trans a b c hab hbc := by
    simp only [Pq.Lt, retiredTsLess, decide_eq_true_eq] at hab hbc ⊢
    omega
  incomp_trans a b c hab hbc := by
    simp only [Pq.Lt, retiredTsLess, decide_eq_true_eq] at hab hbc ⊢
    omega

/-- An item in the middle is removed, and the last one has to go up in its place. -/
def upward : List (Op (Nat × Nat)) :=
  [.push (0, 1) true, .push (1, 5) true, .push (2, 2) true, .push (3, 6) true, .push (4, 7) true, .push (5, 3) true,
    .remove (3, 6), .push (6, 0) false, .pop]

theorem run_heap_upward :
    ∃ s, run (step retiredTsLess) (start (fun _ => (0, 0)) fun _ => 0) upward = .ok s ∧ s.pq.IsHeap retiredTsLess ∧
      (∀ x, x ∈ s.queued ↔ s.pq.Holds x) ∧
      (s.queued ≠ ∅ → ∃ item, s.pq.top = .ok item ∧ item ∈ s.queued ∧ ∀ x ∈ s.queued, retiredTsLess x item = false) :=
  run_heap retiredTsLess _ _ (by decide +kernel)

end PqRun

end Zngtcp2
