import Mathlib.Logic.Function.Basic
import Zngtcp2.Buf

namespace Zngtcp2.HashMap

/-- What keeps a function from returning: a loop that goes on for ever, or a failing assertion. -/
inductive Stop
  | endless
  | assertion
  deriving DecidableEq

/-- The elements of the three arrays at one index. A slot that is not in use has `psl` 0 and may hold an old
key and data; `none` is the null pointer. -/
@[ext]
structure Slot (α : Type) where
  psl : Nat := 0
  key : Nat := 0
  data : Option α := none

structure Map (α : Type) where
  slots : Nat → Slot α := fun _ => {}
  seed : Nat
  size : Nat := 0
  hashbits : Nat := 0

variable {α : Type}

def initialHashbits : Nat := 4

def maxHashbits : Nat := 63

def maxPslResizeThresh : Nat := 128

def hasher : Nat := 0xF1357AEA2E62A9C5

def fibo : Nat := 0x9E3779B97F4A7C15

def mapInit (seed : Nat) : Map α where
  seed := seed

def tablelen (hashbits : Nat) : Nat :=
  2 ^ hashbits

/-- The hash of a key, of which the index is the high bits. -/
def hash (seed key : Nat) : Nat :=
  (key + seed) % 2 ^ 64 * hasher % 2 ^ 64 * fibo % 2 ^ 64

def mapIndex (seed hashbits key : Nat) : Nat :=
  hash seed key / 2 ^ (64 - hashbits)

/-- `map_set_entry`; the array has 8 bits for the probe sequence length. -/
def mapSetEntry (map : Map α) (idx key : Nat) (data : Option α) (psl : Nat) : Map α :=
  { map with slots := Function.update map.slots idx ⟨psl % 256, key, data⟩ }

/-- The loop of `map_insert` for `fuel` rounds: the index where the last entry came to lie, or `none` for the
error code. -/
def insertLoop : Nat → Map α → Nat → Nat → Option α → Nat → Except Stop (Option Nat × Map α)
  | 0, _, _, _, _, _ => .error .endless
  | fuel + 1, map, idx, key, data, psl =>
      let slot := map.slots idx
      let next := (idx + 1) % tablelen map.hashbits
      if slot.psl = 0 then .ok (some idx, { mapSetEntry map idx key data psl with size := map.size + 1 })
      else if slot.psl < psl then
        -- the swap stores `psl` as a byte, too
        insertLoop fuel (mapSetEntry map idx key data psl) next slot.key slot.data (slot.psl + 1)
      else if slot.key = key then .ok (none, map)
      else insertLoop fuel map next key data (psl + 1)

def mapInsert (map : Map α) (key : Nat) (data : Option α) : Except Stop (Option Nat × Map α) :=
  insertLoop (tablelen map.hashbits) map (mapIndex map.seed map.hashbits key) key data 1

/-- The entries of the table at the indices are inserted into the new one. -/
def rehash (slots : Nat → Slot α) : List Nat → Map α → Except Stop (Map α)
  | [], new => .ok new
  | i :: is, new =>
      if (slots i).psl = 0 then rehash slots is new
      else
        match mapInsert new (slots i).key (slots i).data with
        | .error e => .error e
        | .ok (none, _) => .error .assertion
        | .ok (some _, new) => rehash slots is new

/-- The indices that the loop of `map_resize` goes through. -/
def resizeIndices (map : Map α) : List Nat :=
  if map.size = 0 then [] else List.range (tablelen map.hashbits)

/-- `map_resize`, whose allocation succeeds. -/
def mapResize (map : Map α) (newHashbits : Nat) : Except Stop (Rv × Map α) :=
  if maxHashbits < newHashbits then .ok (.nomem, map)
  else do
    let new ← rehash map.slots (resizeIndices map) { seed := map.seed, hashbits := newHashbits }
    .ok (.ok, { map with slots := new.slots, hashbits := newHashbits })

/-- `ngtcp2_map_insert`; the data is not null. -/
def Map.insert (map : Map α) (key : Nat) (data : α) : Except Stop (Rv × Map α) :=
  let len := tablelen map.hashbits
  if len - len / 8 ≤ map.size + 1 then do
    let (rv, map) ← mapResize map (if map.hashbits ≠ 0 then map.hashbits + 1 else initialHashbits)
    if rv ≠ .ok then .ok (rv, map)
    else do
      let (idx, map) ← mapInsert map key (some data)
      .ok (if idx = none then .invalidArgument else .ok, map)
  else do
    let (idx, map) ← mapInsert map key (some data)
    match idx with
    | none => .ok (.invalidArgument, map)
    | some idx =>
        if (map.slots idx).psl < maxPslResizeThresh + 1 then .ok (.ok, map) else mapResize map (map.hashbits + 1)

/-- The loop with which a key is looked for. A distance is less than 256, so that it has at most as many
rounds. -/
def probeLoop {β : Type} (map : Map α) (absent : Except Stop β) (found : Nat → Except Stop β) :
    Nat → Nat → Nat → Nat → Except Stop β
  | 0, _, _, _ => .error .endless
  | fuel + 1, idx, key, psl =>
      if (map.slots idx).psl < psl then absent
      else if (map.slots idx).key = key then found idx
      else probeLoop map absent found fuel ((idx + 1) % tablelen map.hashbits) key (psl + 1)

/-- `ngtcp2_map_find` -/
def Map.find (map : Map α) (key : Nat) : Except Stop (Option α) :=
  if map.size = 0 then .ok none
  else
    probeLoop map (.ok none) (fun idx => .ok (map.slots idx).data) 256 (mapIndex map.seed map.hashbits key) key 1

/-- The inner loop of `ngtcp2_map_remove`, which moves the entries behind `dest` back. -/
def shiftLoop : Nat → Map α → Nat → Except Stop (Map α)
  | 0, _, _ => .error .endless
  | fuel + 1, map, dest =>
      let idx := (dest + 1) % tablelen map.hashbits
      let slot := map.slots idx
      if slot.psl ≤ 1 then
        .ok { map with slots := Function.update map.slots dest { map.slots dest with psl := 0 } }
      else shiftLoop fuel (mapSetEntry map dest slot.key slot.data (slot.psl - 1)) idx

def removeAt (map : Map α) (idx : Nat) : Except Stop (Rv × Map α) := do
  let map ← shiftLoop (tablelen map.hashbits) map idx
  .ok (.ok, { map with size := map.size - 1 })

/-- `ngtcp2_map_remove` -/
def Map.remove (map : Map α) (key : Nat) : Except Stop (Rv × Map α) :=
  if map.size = 0 then .ok (.invalidArgument, map)
  else probeLoop map (.ok (.invalidArgument, map)) (removeAt map) 256 (mapIndex map.seed map.hashbits key) key 1

def Map.clear (map : Map α) : Map α :=
  if map.size = 0 then map
  else
    { map with
      slots := fun i => if i < tablelen map.hashbits then { map.slots i with psl := 0 } else map.slots i
      size := 0 }

/-- The loop of `ngtcp2_map_each` over the indices, with a function that returns an error code or not. -/
def eachLoop {ρ ε : Type} (slots : Nat → Slot α) (func : Option α → ρ → Except ε ρ) : List Nat → ρ → Except ε ρ
  | [], ptr => .ok ptr
  | i :: is, ptr =>
      if (slots i).psl = 0 then eachLoop slots func is ptr
      else
        match func (slots i).data ptr with
        | .error e => .error e
        | .ok ptr => eachLoop slots func is ptr

def Map.each {ρ ε : Type} (map : Map α) (func : Option α → ρ → Except ε ρ) (ptr : ρ) : Except ε ρ :=
  if map.size = 0 then .ok ptr else eachLoop map.slots func (List.range (tablelen map.hashbits)) ptr

end Zngtcp2.HashMap
