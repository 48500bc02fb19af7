import Mathlib.Logic.Function.Basic
import Zngtcp2.Buf
import Zngtcp2.Lib.Heap

namespace Zngtcp2

/-- The priority queue: the array `q`, of which the first `length` items are queued, and the index fields of
all entries. -/
structure Pq (α : Type) where
  q : Nat → α
  length : Nat
  capacity : Nat
  index : α → Nat

namespace Pq

variable {α : Type} (less : α → α → Bool)

/-- The smallest one of an item and its children. -/
def minIndex (pq : Pq α) (index : Nat) : Nat :=
  let j := index * 2 + 1
  if pq.length ≤ j then index
  else
    let minindex := if less (pq.q j) (pq.q index) then j else index
    if pq.length ≤ j + 1 then minindex
    else if less (pq.q (j + 1)) (pq.q minindex) then j + 1 else minindex

theorem minIndex_cases (pq : Pq α) (index : Nat) :
    pq.minIndex less index = index ∨ index < pq.minIndex less index ∧ pq.minIndex less index < pq.length := by
  simp only [minIndex]
  split_ifs <;> omega

variable [DecidableEq α]

/-- `ngtcp2_pq_init`; no array is allocated yet. -/
def init (q : Nat → α) (index : α → Nat) : Pq α :=
  ⟨q, 0, 0, index⟩

/-- Puts an item into the array, and the position into the item. -/
def place (pq : Pq α) (i : Nat) (item : α) : Pq α :=
  { pq with q := Function.update pq.q i item, index := Function.update pq.index item i }

def swap (pq : Pq α) (i j : Nat) : Pq α :=
  let a := pq.q i
  let b := pq.q j
  (pq.place i b).place j a

def bubbleUp (pq : Pq α) (index : Nat) : Pq α :=
  if _ : index = 0 then pq
  else if less (pq.q index) (pq.q (Lib.Heap.parent index)) then
    bubbleUp (pq.swap (Lib.Heap.parent index) index) (Lib.Heap.parent index)
  else pq
termination_by index
decreasing_by exact Lib.Heap.parent_lt (Nat.pos_of_ne_zero ‹_›)

def bubbleDown (pq : Pq α) (index : Nat) : Pq α :=
  if _ : pq.minIndex less index = index then pq
  else bubbleDown (pq.swap index (pq.minIndex less index)) (pq.minIndex less index)
termination_by pq.length - index
decreasing_by
  have hcases := minIndex_cases less pq index
  simp only [swap, place]
  omega

/-- `ngtcp2_pq_push`. `alloc` tells whether there is memory for a larger array. -/
def push (pq : Pq α) (item : α) (alloc : Bool) : Rv × Pq α :=
  if pq.capacity ≤ pq.length ∧ alloc = false then (.nomem, pq)
  else
    let capacity := if pq.capacity ≤ pq.length then max 4 (pq.capacity * 2) else pq.capacity
    (.ok, ({ pq with capacity := capacity, length := pq.length + 1 }.place pq.length item).bubbleUp less pq.length)

def top (pq : Pq α) : Except Fault α :=
  if pq.length = 0 then .error .assertion else .ok (pq.q 0)

def pop (pq : Pq α) : Except Fault (Pq α) :=
  if pq.length = 0 then .error .assertion
  else .ok (({ pq with length := pq.length - 1 }.place 0 (pq.q (pq.length - 1))).bubbleDown less 0)

def remove (pq : Pq α) (item : α) : Except Fault (Pq α) :=
  let index := pq.index item
  if pq.q index ≠ item then .error .assertion
  else if index = 0 then pq.pop less
  else if index = pq.length - 1 then .ok { pq with length := pq.length - 1 }
  else
    let pq := { pq with length := pq.length - 1 }.place index (pq.q (pq.length - 1))
    if less item (pq.q index) then .ok (pq.bubbleDown less index) else .ok (pq.bubbleUp less index)

end Pq

end Zngtcp2
