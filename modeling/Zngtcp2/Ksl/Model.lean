import Mathlib.Logic.Function.Basic
import Mathlib.Order.Defs.LinearOrder
import Zngtcp2.Buf

namespace Zngtcp2.SkipList

/-- `NGTCP2_KSL_MIN_NBLK` -/
def minNblk : Nat :=
  16

/-- `NGTCP2_KSL_MAX_NBLK` -/
def maxNblk : Nat :=
  2 * minNblk

/-- A block with its address; a node has a key, and data or a block. -/
structure Block (K α : Type) where
  id : Nat
  nodes : List (K × α)
  deriving DecidableEq

/-- What a node of a block of the given height holds: data if the block is a leaf. -/
def Node (K V : Type) : Nat → Type
  | 0 => V
  | h + 1 => Block K (Node K V h)

abbrev Tree (K V : Type) (h : Nat) :=
  Block K (Node K V h)

/-- The links of the blocks of one height. -/
structure Links where
  next : Nat → Option Nat
  prev : Nat → Option Nat

/-- The links of the blocks by their height, `back`, the next address, and which of the following
allocations succeed (all of them behind the end of the list). -/
structure Mem where
  links : Nat → Links
  back : Option Nat
  fresh : Nat
  alloc : List Bool

/-- An iterator: the address of a leaf, and the index of a node. -/
structure It where
  blk : Nat
  i : Nat
  deriving DecidableEq, Repr

namespace Block

variable {K α : Type}

def n (b : Block K α) : Nat :=
  b.nodes.length

/-- The last key; `k` stands for it in a block without nodes, where the code does not ask. -/
def lastKey (b : Block K α) (k : K) : K :=
  (b.nodes.getLast?.map Prod.fst).getD k

end Block

namespace Mem

variable (m : Mem)

/-- `ksl_blk_objalloc_new` -/
def new : Mem × Option Nat :=
  match m.alloc with
  | false :: alloc => ({ m with alloc := alloc }, none)
  | alloc => ({ m with fresh := m.fresh + 1, alloc := alloc.tail }, some m.fresh)

/-- A block without neighbours. -/
def alone (h id : Nat) : Mem :=
  { m with
    links := Function.update m.links h
      { next := Function.update (m.links h).next id none
        prev := Function.update (m.links h).prev id none } }

/-- The new block `r` becomes the right neighbour of `b`. -/
def linkAfter (h b r : Nat) : Mem :=
  let l := m.links h
  let next := l.next b
  { m with
    links := Function.update m.links h
      { next := Function.update (Function.update l.next r next) b (some r)
        prev := Function.update (next.elim l.prev fun a => Function.update l.prev a (some r)) r (some b) }
    back := if next = none ∧ h = 0 ∧ m.back = some b then some r else m.back }

/-- The block `r`, the right neighbour of `b`, is taken out. -/
def unlinkAfter (h b r : Nat) : Mem :=
  let l := m.links h
  let next := l.next r
  { m with
    links := Function.update m.links h
      { next := Function.update l.next b next
        prev := next.elim l.prev fun a => Function.update l.prev a (some b) }
    back := if next = none ∧ h = 0 ∧ m.back = some r then some b else m.back }

/-- The position `i` of a leaf with `n` nodes, or the first one of the next leaf if it is behind the
last node. -/
def settle (blk i n : Nat) : It :=
  if i = n then ((m.links 0).next blk).elim ⟨blk, i⟩ fun next => ⟨next, 0⟩ else ⟨blk, i⟩

end Mem

section

variable {K V α : Type} [LinearOrder K]

/-- `ngtcp2_ksl_search`: the nodes in front of the index, and those from it on. -/
def searchFront (key : K) (nodes : List (K × α)) : List (K × α) :=
  nodes.takeWhile fun n => n.1 < key

def searchRest (key : K) (nodes : List (K × α)) : List (K × α) :=
  nodes.dropWhile fun n => n.1 < key

/-- `ksl_split_blk` on a block of height `h`; `none` where there is no memory. -/
def splitBlk (h : Nat) (m : Mem) (blk : Block K α) : Except Fault (Mem × Option (Block K α × Block K α)) :=
  match m.new with
  | (m, none) => .ok (m, none)
  | (m, some r) =>
      let rn := blk.n / 2
      let ln := blk.n - rn
      if ln < minNblk ∨ rn < minNblk then .error .assertion
      else .ok (m.linkAfter h blk.id r, some (⟨blk.id, blk.nodes.take ln⟩, ⟨r, blk.nodes.drop ln⟩))

/-- What an operation leaves of a block: the code it returns, and the iterator if it sets it to
something else than the end. -/
structure Outcome (K α : Type) where
  mem : Mem
  blk : Block K α
  rv : Rv
  it : Option It

/-- `ksl_insert_node` at the end of a leaf. -/
def insertLeafLast (key : K) (data : V) (m : Mem) (blk : Block K V) : Except Fault (Outcome K V) :=
  if blk.n < maxNblk then .ok ⟨m, ⟨blk.id, blk.nodes ++ [(key, data)]⟩, .ok, some ⟨blk.id, blk.n⟩⟩
  else .error .assertion

/-- One round of the loop of `ngtcp2_ksl_insert` that extends the largest key of a subtree; `descend`
is what follows, on a child of height `h`. -/
def insertInnerLast (h : Nat) (key : K) (descend : Mem → Block K α → Except Fault (Outcome K α)) (m : Mem) (blk : Block K (Block K α)) :
    Except Fault (Outcome K (Block K α)) :=
  match blk.nodes.getLast? with
  | none => .error .unreachable
  | some (k, child) =>
      let front := blk.nodes.dropLast
      if child.n = maxNblk then do
        match ← splitBlk h m child with
        | (m, none) => .ok ⟨m, blk, .nomem, none⟩
        | (m, some (lblk, rblk)) =>
            let o ← descend m rblk
            .ok ⟨o.mem, ⟨blk.id, front ++ [(lblk.lastKey k, lblk), (key, o.blk)]⟩, o.rv, o.it⟩
      else do
        let o ← descend m child
        .ok ⟨o.mem, ⟨blk.id, front ++ [(key, o.blk)]⟩, o.rv, o.it⟩

def insertLast (key : K) (data : V) : (h : Nat) → Mem → Tree K V h → Except Fault (Outcome K (Node K V h))
  | 0 => insertLeafLast key data
  | h + 1 => insertInnerLast h key (insertLast key data h)

/-- `ngtcp2_ksl_insert` at a leaf. -/
def insertLeaf (key : K) (data : V) (m : Mem) (blk : Block K V) : Except Fault (Outcome K V) :=
  let front := searchFront key blk.nodes
  let rest := searchRest key blk.nodes
  if rest.head?.any (fun n => ¬key < n.1) then .ok ⟨m, blk, .invalidArgument, none⟩
  else if blk.n < maxNblk then
    .ok ⟨m, ⟨blk.id, front ++ (key, data) :: rest⟩, .ok, some ⟨blk.id, front.length⟩⟩
  else .error .assertion

/-- One round of the loop of `ngtcp2_ksl_insert` at an inner block; `extend` is the inner loop. -/
def insertInner (h : Nat) (key : K) (descend : Mem → Block K α → Except Fault (Outcome K α))
    (extend : Mem → Block K (Block K α) → Except Fault (Outcome K (Block K α))) (m : Mem) (blk : Block K (Block K α)) :
    Except Fault (Outcome K (Block K α)) :=
  match searchRest key blk.nodes with
  | [] => extend m blk
  | (k, child) :: rest =>
      let front := searchFront key blk.nodes
      if child.n = maxNblk then do
        match ← splitBlk h m child with
        | (m, none) => .ok ⟨m, blk, .nomem, none⟩
        | (m, some (lblk, rblk)) =>
            let lkey := lblk.lastKey k
            if lkey < key then do
              let o ← descend m rblk
              .ok ⟨o.mem, ⟨blk.id, front ++ (lkey, lblk) :: (k, o.blk) :: rest⟩, o.rv, o.it⟩
            else do
              let o ← descend m lblk
              .ok ⟨o.mem, ⟨blk.id, front ++ (lkey, o.blk) :: (k, rblk) :: rest⟩, o.rv, o.it⟩
      else do
        let o ← descend m child
        .ok ⟨o.mem, ⟨blk.id, front ++ (k, o.blk) :: rest⟩, o.rv, o.it⟩

/-- The loop of `ngtcp2_ksl_insert` from a block that is not full on. -/
def insertAt (key : K) (data : V) : (h : Nat) → Mem → Tree K V h → Except Fault (Outcome K (Node K V h))
  | 0 => insertLeaf key data
  | h + 1 => insertInner h key (insertAt key data h) (insertInnerLast h key (insertLast key data h))

/-- The part of `ksl_merge_node` that merges two neighbours of height `h`. -/
def mergeBlk (h : Nat) (m : Mem) (lblk rblk : Block K α) : Except Fault (Mem × Block K α) :=
  if lblk.n + rblk.n ≤ maxNblk then .ok (m.unlinkAfter h lblk.id rblk.id, ⟨lblk.id, lblk.nodes ++ rblk.nodes⟩)
  else .error .assertion

/-- `ksl_shift_left`: the blocks after it. -/
def shiftLeft (lblk rblk : Block K α) : Except Fault (Block K α × Block K α) :=
  let n := (lblk.n + rblk.n + 1) / 2 - lblk.n
  if lblk.n < maxNblk ∧ minNblk < rblk.n ∧ 0 < n ∧ lblk.n + n ≤ maxNblk ∧ minNblk + n ≤ rblk.n then
    .ok (⟨lblk.id, lblk.nodes ++ rblk.nodes.take n⟩, ⟨rblk.id, rblk.nodes.drop n⟩)
  else .error .assertion

/-- `ksl_shift_right` -/
def shiftRight (lblk rblk : Block K α) : Except Fault (Block K α × Block K α) :=
  let n := (lblk.n + rblk.n + 1) / 2 - rblk.n
  if minNblk < lblk.n ∧ rblk.n < maxNblk ∧ 0 < n ∧ minNblk + n ≤ lblk.n ∧ rblk.n + n ≤ maxNblk then
    .ok (⟨lblk.id, lblk.nodes.take (lblk.n - n)⟩, ⟨rblk.id, lblk.nodes.drop (lblk.n - n) ++ rblk.nodes⟩)
  else .error .assertion

/-- How a block gets a child with more than `minNblk` nodes, from which a node may be removed: the
nodes in front of the child, its key, the child, and the nodes behind it. -/
structure Descent (K α : Type) where
  front : List (K × Block K α)
  key : K
  child : Block K α
  rest : List (K × Block K α)

def Descent.nodes (d : Descent K α) (child : Block K α) : List (K × Block K α) :=
  d.front ++ (d.key, child) :: d.rest

/-- `ksl_shift_left` from the right neighbour. -/
def shiftFromRight (d : Descent K α) : Except Fault (Descent K α) :=
  match d.rest with
  | [] => .error .unreachable
  | (rkey, rblk) :: rest => do
      let (blk, rblk) ← shiftLeft d.child rblk
      .ok ⟨d.front, blk.lastKey d.key, blk, (rkey, rblk) :: rest⟩

/-- `ksl_shift_right` from the left neighbour. -/
def shiftFromLeft (d : Descent K α) : Except Fault (Descent K α) :=
  match d.front.getLast? with
  | none => .error .unreachable
  | some (lkey, lblk) => do
      let (lblk, blk) ← shiftRight lblk d.child
      .ok ⟨d.front.dropLast ++ [(lblk.lastKey lkey, lblk)], d.key, blk, d.rest⟩

/-- `ksl_merge_node` with the right neighbour, or else with the left one. If the child and the other
one were the only ones of the root, the merged block would become the root; this does not happen
here, since the root is looked at before. -/
def mergeChild (h : Nat) (top : Bool) (m : Mem) (d : Descent K α) : Except Fault (Mem × Descent K α) :=
  if top ∧ d.front.length + d.rest.length = 1 then .error .unreachable
  else
    match d.rest, d.front.getLast? with
    | (rkey, rblk) :: rest, _ => do
        let (m, blk) ← mergeBlk h m d.child rblk
        .ok (m, ⟨d.front, blk.lastKey rkey, blk, rest⟩)
    | [], some (lkey, lblk) => do
        let (m, blk) ← mergeBlk h m lblk d.child
        .ok (m, ⟨d.front.dropLast, blk.lastKey lkey, blk, []⟩)
    | [], none => .error .assertion

/-- The part of the loop of `ngtcp2_ksl_remove` that comes before the descent to a child. -/
def prepareChild (h : Nat) (top : Bool) (m : Mem) (d : Descent K α) : Except Fault (Mem × Descent K α) :=
  if minNblk < d.child.n then .ok (m, d)
  else if d.child.n ≠ minNblk then .error .assertion
  else if d.rest.head?.any (fun r => minNblk < r.2.n) then do
    let d ← shiftFromRight d
    .ok (m, d)
  else if d.front.getLast?.any (fun l => minNblk < l.2.n) then do
    let d ← shiftFromLeft d
    .ok (m, d)
  else mergeChild h top m d

/-- `ngtcp2_ksl_remove` at a leaf. -/
def removeLeaf (key : K) (m : Mem) (blk : Block K V) : Except Fault (Outcome K V) :=
  let front := searchFront key blk.nodes
  match searchRest key blk.nodes with
  | [] => .ok ⟨m, blk, .invalidArgument, none⟩
  | (k, _) :: rest =>
      if key < k then .ok ⟨m, blk, .invalidArgument, none⟩
      else
        .ok ⟨m, ⟨blk.id, front ++ rest⟩, .ok, some (m.settle blk.id front.length (front.length + rest.length))⟩

/-- One round of the loop of `ngtcp2_ksl_remove` at an inner block. -/
def removeInner (h : Nat) (key : K) (descend : Mem → Block K α → Except Fault (Outcome K α)) (top : Bool) (m : Mem)
    (blk : Block K (Block K α)) : Except Fault (Outcome K (Block K α)) :=
  match searchRest key blk.nodes with
  | [] => .ok ⟨m, blk, .invalidArgument, none⟩
  | (k, child) :: rest => do
      let (m, d) ← prepareChild h top m ⟨searchFront key blk.nodes, k, child, rest⟩
      let o ← descend m d.child
      .ok ⟨o.mem, ⟨blk.id, d.nodes o.blk⟩, o.rv, o.it⟩

/-- The loop of `ngtcp2_ksl_remove`; `top` for the root. -/
def removeAt (key : K) : (h : Nat) → (top : Bool) → Mem → Tree K V h → Except Fault (Outcome K (Node K V h))
  | 0, _ => removeLeaf key
  | h + 1, top => removeInner h key (removeAt key h false) top

def lastLeafInner (descend : Block K α → Except Fault (Block K V)) (blk : Block K (Block K α)) :
    Except Fault (Block K V) :=
  match blk.nodes.getLast? with
  | none => .error .unreachable
  | some (_, child) => descend child

/-- The last leaf of a subtree. -/
def lastLeaf : (h : Nat) → Tree K V h → Except Fault (Block K V)
  | 0 => fun blk => .ok blk
  | h + 1 => lastLeafInner (lastLeaf h)

/-- One round of the loop of `ngtcp2_ksl_lower_bound` at an inner block. -/
def lowerBoundInner (key : K) (m : Mem) (descend : Block K α → Except Fault It)
    (last : Block K α → Except Fault (Block K V)) (blk : Block K (Block K α)) : Except Fault It :=
  match searchRest key blk.nodes with
  | [] => do
      let leaf ← lastLeafInner last blk
      .ok (m.settle leaf.id leaf.n leaf.n)
  | (_, child) :: _ => descend child

/-- The loop of `ngtcp2_ksl_lower_bound`. -/
def lowerBoundAt (key : K) (m : Mem) : (h : Nat) → Tree K V h → Except Fault It
  | 0 => fun blk => .ok (m.settle blk.id (searchFront key blk.nodes).length blk.n)
  | h + 1 => lowerBoundInner key m (lowerBoundAt key m h) (lastLeaf h)

/-- `ngtcp2_ksl_update_key` at a leaf. -/
def updateKeyLeaf (oldKey newKey : K) (blk : Block K V) : Except Fault (Block K V) :=
  match searchRest oldKey blk.nodes with
  | [] => .error .assertion
  | (k, data) :: rest =>
      if k = oldKey then .ok ⟨blk.id, searchFront oldKey blk.nodes ++ (newKey, data) :: rest⟩
      else .error .assertion

/-- One round of the loop of `ngtcp2_ksl_update_key` at an inner block. -/
def updateKeyInner (oldKey newKey : K) (descend : Block K α → Except Fault (Block K α)) (blk : Block K (Block K α)) :
    Except Fault (Block K (Block K α)) :=
  match searchRest oldKey blk.nodes with
  | [] => .error .assertion
  | (k, child) :: rest => do
      let child ← descend child
      .ok ⟨blk.id, searchFront oldKey blk.nodes ++ (if k = oldKey ∨ k < newKey then newKey else k, child) :: rest⟩

/-- The loop of `ngtcp2_ksl_update_key`. -/
def updateKeyAt (oldKey newKey : K) : (h : Nat) → Tree K V h → Except Fault (Tree K V h)
  | 0 => updateKeyLeaf oldKey newKey
  | h + 1 => updateKeyInner oldKey newKey (updateKeyAt oldKey newKey h)

end

section

variable {K V α : Type}

def leavesInner (descend : Block K α → List (Block K V)) (blk : Block K (Block K α)) : List (Block K V) :=
  blk.nodes.flatMap fun n => descend n.2

/-- The leaves of a subtree, from left to right. -/
def leaves : (h : Nat) → Tree K V h → List (Block K V)
  | 0 => fun blk => [blk]
  | h + 1 => leavesInner (leaves h)

def mapInner (descend : Block K α → Block K α) (blk : Block K (Block K α)) : Block K (Block K α) :=
  ⟨blk.id, blk.nodes.map fun n => (n.1, descend n.2)⟩

/-- The leaves that stay when only the topmost block of a subtree is released. -/
def leavesBelow : (h : Nat) → Tree K V h → List (Block K V)
  | 0 => fun _ => []
  | h + 1 => leaves (h + 1)

/-- Changes the nodes of the leaf with the address `id`. -/
def mapLeaf (id : Nat) (f : List (K × V) → List (K × V)) : (h : Nat) → Tree K V h → Tree K V h
  | 0 => fun blk => if blk.id = id then ⟨blk.id, f blk.nodes⟩ else blk
  | h + 1 => mapInner (mapLeaf id f h)

end

section

variable {K α : Type} [LinearOrder K]

/-- The two children of a root that `ngtcp2_ksl_remove` merges at once, if they are so. -/
def mergeTwo (h : Nat) (m : Mem) (blk : Block K (Block K α)) : Except Fault (Option (Mem × Block K α)) :=
  match blk.nodes with
  | [(_, lblk), (_, rblk)] =>
      if lblk.n = minNblk ∧ rblk.n = minNblk then do
        let r ← mergeBlk h m lblk rblk
        .ok (some r)
      else .ok none
  | _ => .ok none

/-- What `ksl_split_root` leaves: the block that was the root, the right half of it if it was
released, and the new root if there is one. -/
structure RootSplit (K α : Type) where
  mem : Mem
  blk : Block K α
  released : Option (Block K α)
  root : Option (Block K (Block K α))

/-- `ksl_split_root`. If there is no memory for the new root, the right half is released. -/
def splitRoot (h : Nat) (m : Mem) (key : K) (root : Block K α) : Except Fault (RootSplit K α) := do
  match ← splitBlk h m root with
  | (m, none) => .ok ⟨m, root, none, none⟩
  | (m, some (lblk, rblk)) =>
      match m.new with
      | (m, none) => .ok ⟨m, lblk, some rblk, none⟩
      | (m, some id) =>
          .ok ⟨m.alone (h + 1) id, lblk, none,
            some ⟨id, [(lblk.lastKey key, lblk), (rblk.lastKey key, rblk)]⟩⟩

end

/-- `ngtcp2_ksl`. The blocks are those of the tree below `root`, and leaves that are not below it any
more and were not released; `n` is the number of elements. -/
structure Ksl (K V : Type) where
  root : Option ((h : Nat) × Tree K V h)
  lost : List (Block K V)
  front : Option Nat
  n : Nat
  mem : Mem

namespace Ksl

variable {K V : Type} (s : Ksl K V)

/-- `ngtcp2_ksl_init` -/
def init : Ksl K V :=
  ⟨none, [], none, 0, ⟨fun _ => ⟨fun _ => none, fun _ => none⟩, none, 0, []⟩⟩

def leafList : List (Block K V) :=
  s.root.elim [] fun r => leaves r.1 r.2

/-- The leaf at an address. -/
def leaf (id : Nat) : Option (Block K V) :=
  (s.leafList ++ s.lost).find? fun b => b.id = id

def begin : Option It :=
  s.front.map fun b => ⟨b, 0⟩

def «end» : Option It :=
  s.mem.back.bind fun b => (s.leaf b).map fun blk => ⟨b, blk.n⟩

/-- `ngtcp2_ksl_it_key` and `ngtcp2_ksl_it_get` -/
def get (it : It) : Option (K × V) :=
  (s.leaf it.blk).bind fun blk => blk.nodes[it.i]?

/-- The elements from an iterator to the end, as a loop with `ngtcp2_ksl_it_end`, `ngtcp2_ksl_it_get`
and `ngtcp2_ksl_it_next` finds them; `none` where it follows a link to a released block. -/
def collect : Nat → Option It → Option (List (K × V))
  | _, none => some []
  | 0, some _ => none
  | fuel + 1, some it => do
      let blk ← s.leaf it.blk
      if it.i = blk.n ∧ (s.mem.links 0).next it.blk = none then some []
      else do
        let e ← blk.nodes[it.i]?
        let es ← collect fuel (some (s.mem.settle it.blk (it.i + 1) blk.n))
        some (e :: es)

def iterate (it : Option It) : Option (List (K × V)) :=
  s.collect (s.n + 1) it

/-- `ngtcp2_ksl_clear` -/
def clear : Ksl K V :=
  { s with root := none, lost := [], front := none, n := 0, mem := { s.mem with back := none } }

variable [LinearOrder K]

/-- The loop of `ngtcp2_ksl_insert` from the root on. -/
def insertRoot (key : K) (data : V) (h : Nat) (m : Mem) (root : Tree K V h) : Except Fault (Ksl K V × Rv × Option It) := do
  let o ← insertAt key data h m root
  let s := { s with root := some ⟨h, o.blk⟩, mem := o.mem, n := if o.rv = .ok then s.n + 1 else s.n }
  .ok (s, o.rv, if o.rv = .invalidArgument then s.end else o.it)

/-- `ngtcp2_ksl_insert` where there is a root. -/
def insertBelow (key : K) (data : V) (h : Nat) (m : Mem) (root : Tree K V h) : Except Fault (Ksl K V × Rv × Option It) :=
  if root.n = maxNblk then do
    let r ← splitRoot h m key root
    match r.root with
    | none =>
        let lost := r.released.elim [] (leavesBelow h)
        .ok ({ s with root := some ⟨h, r.blk⟩, lost := s.lost ++ lost, mem := r.mem }, .nomem, none)
    | some root => s.insertRoot key data (h + 1) r.mem root
  else s.insertRoot key data h m root

/-- `ngtcp2_ksl_insert`; `alloc` says which of its allocations succeed. -/
def insert (alloc : List Bool) (key : K) (data : V) : Except Fault (Ksl K V × Rv × Option It) :=
  let m := { s.mem with alloc := alloc }
  match s.root with
  | some ⟨h, root⟩ => s.insertBelow key data h m root
  | none =>
      match m.new with
      | (m, none) => .ok ({ s with mem := m }, .nomem, none)
      | (m, some id) =>
          insertBelow { s with front := some id } key data 0 { m.alone 0 id with back := some id } ⟨id, []⟩

/-- The root after `ngtcp2_ksl_remove` has merged its two children, if so. -/
def mergeRoot (m : Mem) : (h : Nat) → Tree K V h → Except Fault (Mem × ((h : Nat) × Tree K V h))
  | 0, root => .ok (m, ⟨0, root⟩)
  | h + 1, root => do
      match ← mergeTwo h m root with
      | some (m, blk) => .ok (m, ⟨h, blk⟩)
      | none => .ok (m, ⟨h + 1, root⟩)

/-- `ngtcp2_ksl_remove` -/
def remove (key : K) : Except Fault (Ksl K V × Rv × Option It) :=
  match s.root with
  | none => .ok (s, .invalidArgument, none)
  | some ⟨h, root⟩ => do
      let (m, ⟨h, root⟩) ← mergeRoot s.mem h root
      let o ← removeAt key h true m root
      let s := { s with root := some ⟨h, o.blk⟩, mem := o.mem, n := if o.rv = .ok then s.n - 1 else s.n }
      .ok (s, o.rv, if o.rv = .ok then o.it else s.end)

/-- `ngtcp2_ksl_remove_hint` -/
def removeHint (hint : It) (key : K) : Except Fault (Ksl K V × Rv × Option It) :=
  match s.root, s.leaf hint.blk with
  | none, _ => .error .assertion
  | some _, none => .error .unreachable
  | some ⟨h, root⟩, some blk =>
      if (h ≠ 0 ∨ root.id ≠ blk.id) ∧ blk.n = minNblk then s.remove key
      else
        let root := mapLeaf blk.id (·.eraseIdx hint.i) h root
        .ok ({ s with root := some ⟨h, root⟩, n := s.n - 1 }, .ok, some (s.mem.settle blk.id hint.i (blk.n - 1)))

/-- `ngtcp2_ksl_lower_bound` -/
def lowerBound (key : K) : Except Fault (Option It) :=
  match s.root with
  | none => .ok none
  | some ⟨h, root⟩ => do
      let it ← lowerBoundAt key s.mem h root
      .ok (some it)

/-- `ngtcp2_ksl_update_key` -/
def updateKey (oldKey newKey : K) : Except Fault (Ksl K V) :=
  match s.root with
  | none => .error .assertion
  | some ⟨h, root⟩ => do
      let root ← updateKeyAt oldKey newKey h root
      .ok { s with root := some ⟨h, root⟩ }

end Ksl

end Zngtcp2.SkipList
