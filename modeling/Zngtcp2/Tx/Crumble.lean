import Zngtcp2.Lib.Segment
import Zngtcp2.Strm.Tx

namespace Zngtcp2.Crumble

open Strm Lib.Segment

structure Pcg32 where
  state : UInt64
  deriving DecidableEq, Repr

namespace Pcg32

def stepR (pcg : Pcg32) : Pcg32 :=
  ⟨pcg.state * 6364136223846793005 + 1442695040888963407⟩

def rotr (value rot : UInt32) : UInt32 :=
  (value >>> rot) ||| (value <<< ((32 - rot) &&& 31))

def output (state : UInt64) : UInt32 :=
  rotr (((state >>> 18) ^^^ state) >>> 27).toUInt32 (state >>> 59).toUInt32

def rand (pcg : Pcg32) : UInt32 × Pcg32 :=
  (output pcg.state, pcg.stepR)

def randN (pcg : Pcg32) (n : Nat) : Nat × Pcg32 :=
  (pcg.rand.1.toNat * n / 2 ^ 32, pcg.rand.2)

theorem randN_lt (pcg : Pcg32) {n : Nat} (hn : 0 < n) : (pcg.randN n).1 < n := by
  rw [randN, Nat.div_lt_iff_lt_mul (by decide), Nat.mul_comm n]
  exact Nat.mul_lt_mul_of_pos_right pcg.rand.1.toNat_lt hn

end Pcg32

/-- An element of the arrays `data` and `offsets`. -/
structure Piece where
  offset : Nat
  vec : Vec
  deriving DecidableEq, Repr

namespace Piece

def cells (p : Piece) : List (Nat × UInt8) :=
  Lib.Segment.cells p.offset p.vec.bytes

/-- `ngtcp2_vec_split_at`: the piece up to `n`, and the piece from there. -/
def splitAt (p : Piece) (n : Nat) : Piece × Piece :=
  (⟨p.offset, p.vec.take n⟩, ⟨p.offset + n, p.vec.drop n⟩)

theorem splitAt_cells (p : Piece) {n : Nat} (hn : n ≤ p.vec.len) :
    (p.splitAt n).1.cells ++ (p.splitAt n).2.cells = p.cells := by
  have hlen : (p.vec.bytes.take n).length = n := List.length_take_of_le hn
  simp only [splitAt, cells, Vec.take_bytes, Vec.drop_bytes]
  conv_rhs => rw [← List.take_append_drop n p.vec.bytes, cells_append, hlen]

end Piece

def dataCells (data : List Piece) : List (Nat × UInt8) :=
  data.flatMap Piece.cells

def splitVecRand : Nat → List Piece → Pcg32 → List Piece × Pcg32
  | 0, data, pcg => (data, pcg)
  | maxAdd + 1, data, pcg =>
      let r := pcg.randN data.length
      match data[r.1]? with
      | none => (data, r.2)
      | some v =>
          if v.vec.len ≤ 1 then splitVecRand maxAdd data r.2
          else
            let s := v.splitAt (v.vec.len / 2)
            splitVecRand maxAdd (data.set r.1 s.1 ++ [s.2]) r.2

/-- `ngtcp2_pkt_split_vec_at`; `none` is the failing assertion. -/
def splitVecAt (at' : Nat) : List Piece → Option (List Piece)
  | [] => none
  | p :: ps =>
      if at' < p.vec.len then some ((p.splitAt at').1 :: ps ++ [(p.splitAt at').2]) else none

/-- What `ngtcp2_pkt_remove_vec_partial` leaves in `data`, and the removed piece. -/
def removeVecPartial (pos len : Nat) (pcg : Pcg32) : List Piece → Option (List Piece × Piece × Pcg32)
  | [] => none
  | p :: ps =>
      if pos = 0 ∨ p.vec.len < pos + len ∨ p.vec.len ≤ pos + len / 2 then none
      else
        let s := p.splitAt (pos + len / 2)
        if s.2.vec.len = 1 then some (s.1 :: ps, s.2, pcg)
        else
          let r := pcg.randN (min 30 (s.2.vec.len - 1))
          let t := s.2.splitAt (1 + r.1)
          some (s.1 :: ps ++ [t.2], t.1, r.2)

/-- A buffer that is read from the front: the position of its first byte, and the bytes left. -/
structure Cursor where
  pos : Nat
  rest : List UInt8
  deriving DecidableEq, Repr

namespace Cursor

def len (c : Cursor) : Nat :=
  c.rest.length

def advance (c : Cursor) (n : Nat) : Cursor :=
  ⟨c.pos + n, c.rest.drop n⟩

def trunc (c : Cursor) (n : Nat) : Cursor :=
  ⟨c.pos, c.rest.take n⟩

/-- The `n` bytes in front as an unsigned integer in network order. -/
def uintbe (c : Cursor) (n : Nat) : Nat :=
  (c.rest.take n).foldl (fun a b => a * 256 + b.toNat) 0

/-- `pkt_tls_skip8` and `pkt_tls_skip16`, for a length of `n` bytes. -/
def tlsSkip (n : Nat) (c : Cursor) : Option Cursor :=
  if c.len < n then none
  else if (c.advance n).len < c.uintbe n then none
  else some ((c.advance n).advance (c.uintbe n))

/-- The extension with the server name, from its data on. -/
def serverName (c : Cursor) : Option (Nat × Nat) :=
  let len := c.uintbe 2
  let c := c.advance 2
  if c.len < len ∨ len < 2 then none
  else
    let c := c.trunc len
    let len := c.uintbe 2
    let c := c.advance 2
    if c.len < len ∨ len < 1 + 2 then none
    else
      let c := c.trunc len
      if c.uintbe 1 ≠ 0 then none
      else
        let c := c.advance 1
        let len := c.uintbe 2
        let c := c.advance 2
        if c.len < len then none else some (c.pos, len)

/-- Every round takes at least four bytes. -/
def extensions : Nat → Cursor → Option (Nat × Nat)
  | 0, _ => none
  | fuel + 1, c =>
      if c.len < 2 * 2 then none
      else if c.uintbe 2 ≠ 0 then (tlsSkip 2 (c.advance 2)).bind (extensions fuel)
      else serverName (c.advance 2)

end Cursor

/-- `ngtcp2_pkt_find_server_name`: the position and the length of the name. -/
def findServerName (data : List UInt8) : Option (Nat × Nat) :=
  let c : Cursor := ⟨0, data⟩
  if c.len < 1 + 3 then none
  else if c.uintbe 1 ≠ 1 then none
  else
    let c := c.advance 1
    let c := (c.advance 3).trunc (c.uintbe 3)
    if c.len < 2 then none
    else if c.uintbe 2 ≠ 0x0303 then none
    else
      let c := c.advance 2
      if c.len < 32 then none
      else do
        let c ← Cursor.tlsSkip 1 (c.advance 32)
        let c ← Cursor.tlsSkip 2 c
        let c ← Cursor.tlsSkip 1 c
        if c.len < 2 then none
        else Cursor.extensions c.len ((c.advance 2).trunc (c.uintbe 2))

inductive Item
  | crypto (piece : Piece)
  | ping
  | padding (len : Nat)
  deriving DecidableEq, Repr

/-- `fuel` bounds the number of elements that still fit the array. -/
def appendPingAndPadding : Nat → Nat → Pcg32 → List Item × Pcg32
  | 0, _, pcg => ([], pcg)
  | fuel + 1, n, pcg =>
      if n = 0 then ([], pcg)
      else
        let r := pcg.randN ((n + 1) % 2 ^ 32)
        if r.1 = 0 then
          let q := appendPingAndPadding fuel (n - 1) r.2
          (.ping :: q.1, q.2)
        else
          let q := appendPingAndPadding fuel (n - r.1) r.2
          (.padding r.1 :: q.1, q.2)

def swap (items : List Item) (i j : Nat) : List Item :=
  if h : i < items.length ∧ j < items.length then (items.set i (items.get ⟨j, h.2⟩)).set j (items.get ⟨i, h.1⟩)
  else items

def swapRand (i : Nat) (items : List Item) (pcg : Pcg32) : List Item × Pcg32 :=
  (swap items i (pcg.randN i).1, (pcg.randN i).2)

/-- `ngtcp2_pkt_permutate_vec`, for the indices from the last one down to 1. -/
def permutateVec (items : List Item) (pcg : Pcg32) : List Item × Pcg32 :=
  (List.range' 1 (items.length - 1)).reverse.foldl (fun r i => swapRand i r.1 r.2) (items, pcg)

/-- The CRYPTO frames that are written for the items. -/
def written (items : List Item) : List (Nat × List UInt8) :=
  items.filterMap fun
    | .crypto p => some (p.offset, p.vec.bytes)
    | _ => none

theorem dataCells_cons (p : Piece) (ps : List Piece) : dataCells (p :: ps) = p.cells ++ dataCells ps :=
  rfl

theorem dataCells_append (ps qs : List Piece) : dataCells (ps ++ qs) = dataCells ps ++ dataCells qs :=
  List.flatMap_append

theorem dataCells_perm {ps qs : List Piece} (h : ps.Perm qs) : (dataCells ps).Perm (dataCells qs) :=
  h.flatMap_right _

theorem set_split_perm {data : List Piece} {i : Nat} {v : Piece} (hv : data[i]? = some v) {n : Nat} (hn : n ≤ v.vec.len) :
    (dataCells (data.set i (v.splitAt n).1 ++ [(v.splitAt n).2])).Perm (dataCells data) := by
  induction data generalizing i with
  | nil => simp at hv
  | cons p ps ih =>
      cases i with
      | zero =>
          rw [List.getElem?_cons_zero] at hv
          cases hv
          rw [List.set_cons_zero, dataCells_append, dataCells_cons, dataCells_cons, dataCells_cons,
            ← v.splitAt_cells hn]
          simp only [dataCells, List.flatMap_nil, List.append_nil, List.append_assoc]
          exact List.Perm.append_left _ List.perm_append_comm
      | succ i =>
          rw [List.getElem?_cons_succ] at hv
          rw [List.set_cons_succ, List.cons_append, dataCells_cons, dataCells_cons]
          exact (ih hv).append_left _

theorem splitVecRand_cells (maxAdd : Nat) (data : List Piece) (pcg : Pcg32) :
    (dataCells (splitVecRand maxAdd data pcg).1).Perm (dataCells data) := by
  induction maxAdd generalizing data pcg with
  | zero => exact List.Perm.refl _
  | succ maxAdd ih =>
      rw [splitVecRand]
      simp only
      split
      · exact List.Perm.refl _
      · rename_i v hv
        split
        · exact ih _ _
        · exact (ih _ _).trans (set_split_perm hv (Nat.div_le_self _ _))

theorem splitVecAt_cells {n : Nat} {data data' : List Piece} (h : splitVecAt n data = some data') :
    (dataCells data').Perm (dataCells data) := by
  cases data with
  | nil => cases h
  | cons p ps =>
      rw [splitVecAt] at h
      split at h
      · rename_i hn
        cases h
        exact set_split_perm (List.getElem?_cons_zero (a := p) (l := ps)) (Nat.le_of_lt hn)
      · cases h

theorem swap_perm (items : List Item) (i j : Nat) : (swap items i j).Perm items := by
  rw [swap]
  split
  · exact List.set_set_perm _ _
  · exact List.Perm.refl _

theorem permutateVec_perm (items : List Item) (pcg : Pcg32) : (permutateVec items pcg).1.Perm items := by
  rw [permutateVec]
  generalize (List.range' 1 (items.length - 1)).reverse = is
  suffices h : ∀ r : List Item × Pcg32, (is.foldl (fun r i => swapRand i r.1 r.2) r).1.Perm r.1 from h (items, pcg)
  intro r
  induction is generalizing r with
  | nil => exact List.Perm.refl _
  | cons i is ih =>
      rw [List.foldl_cons]
      exact (ih _).trans (swap_perm r.1 i _)

namespace Cursor

/-- The cursor is past the first byte, and what it has left lies in the first `n` bytes. -/
structure Within (n : Nat) (c : Cursor) : Prop where
  pos : 0 < c.pos
  le : c.pos + c.len ≤ n

theorem Within.advance {n : Nat} {c : Cursor} (h : c.Within n) {k : Nat} (hk : k ≤ c.len) : (c.advance k).Within n := by
  have := h.le
  refine ⟨Nat.add_pos_left h.pos k, ?_⟩
  simp only [Cursor.advance, len, List.length_drop] at this hk ⊢
  omega

theorem Within.trunc {n : Nat} {c : Cursor} (h : c.Within n) (k : Nat) : (c.trunc k).Within n := by
  have := h.le
  refine ⟨h.pos, ?_⟩
  simp only [Cursor.trunc, len, List.length_take] at this ⊢
  omega

theorem Within.tlsSkip {n k : Nat} {c c' : Cursor} (h : c.Within n) (hs : Cursor.tlsSkip k c = some c') : c'.Within n := by
  rw [Cursor.tlsSkip] at hs
  split at hs
  · cases hs
  · rename_i hk
    split at hs
    · cases hs
    · rename_i hlen
      cases hs
      exact (h.advance (Nat.not_lt.mp hk)).advance (Nat.not_lt.mp hlen)

theorem serverName_within {n : Nat} {c : Cursor} (h : c.Within n) (hlen : 2 ≤ c.len) {pos len : Nat}
    (hs : serverName c = some (pos, len)) : 0 < pos ∧ pos + len ≤ n := by
  simp only [serverName] at hs
  split at hs
  · cases hs
  · rename_i h₁
    split at hs
    · cases hs
    · rename_i h₂
      split at hs
      · cases hs
      · split at hs
        · cases hs
        · rename_i h₃
          cases hs
          simp only [Cursor.len, Cursor.advance, Cursor.trunc, List.length_drop, List.length_take] at h₁ h₂ h₃ hlen ⊢
          have := h.pos
          have := h.le
          simp only [Cursor.len] at this
          omega

theorem extensions_within {n fuel : Nat} {c : Cursor} (h : c.Within n) {pos len : Nat}
    (hs : extensions fuel c = some (pos, len)) : 0 < pos ∧ pos + len ≤ n := by
  induction fuel generalizing c with
  | zero => cases hs
  | succ fuel ih =>
      rw [extensions] at hs
      split at hs
      · cases hs
      · rename_i hlen
        have hadv := h.advance (k := 2) (by omega)
        split at hs
        · obtain ⟨c', hc', hs⟩ := Option.bind_eq_some_iff.mp hs
          exact ih (hadv.tlsSkip hc') hs
        · refine serverName_within hadv ?_ hs
          simp only [Cursor.len, Cursor.advance, List.length_drop] at hlen ⊢
          omega

end Cursor

theorem findServerName_within {data : List UInt8} {pos len : Nat} (h : findServerName data = some (pos, len)) :
    0 < pos ∧ pos + len ≤ data.length := by
  simp only [findServerName] at h
  split at h
  · cases h
  · rename_i hlen
    split at h
    · cases h
    · split at h
      · cases h
      · rename_i h2
        split at h
        · cases h
        · split at h
          · cases h
          · rename_i h32
            have hw : ((⟨0, data⟩ : Cursor).advance 1).Within data.length := by
              refine ⟨Nat.one_pos, ?_⟩
              simp only [Cursor.len, Cursor.advance, List.length_drop] at hlen ⊢
              omega
            have hw := (hw.advance (k := 3) (by
              simp only [Cursor.len, Cursor.advance, List.length_drop] at hlen ⊢
              omega)).trunc (Cursor.uintbe ((⟨0, data⟩ : Cursor).advance 1) 3)
            have hw := (hw.advance (Nat.not_lt.mp h2)).advance (Nat.not_lt.mp h32)
            obtain ⟨c₁, h₁, h⟩ := Option.bind_eq_some_iff.mp h
            obtain ⟨c₂, h₂, h⟩ := Option.bind_eq_some_iff.mp h
            obtain ⟨c₃, h₃, h⟩ := Option.bind_eq_some_iff.mp h
            have hw := ((hw.tlsSkip h₁).tlsSkip h₂).tlsSkip h₃
            split at h
            · cases h
            · rename_i hc
              exact Cursor.extensions_within ((hw.advance (Nat.not_lt.mp hc)).trunc _) h

/-- What `ngtcp2_pkt_remove_vec_partial` takes out of the first piece. -/
theorem removeVecPartial_spec {pos len : Nat} {pcg pcg' : Pcg32} {p : Piece} {ps data' : List Piece} {removed : Piece}
    (h : removeVecPartial pos len pcg (p :: ps) = some (data', removed, pcg')) :
    (dataCells data' ++ removed.cells).Perm (dataCells (p :: ps)) ∧
      ∃ l k, 0 < l ∧ 0 < k ∧ l + k ≤ p.vec.len ∧ removed = ⟨p.offset + l, (p.vec.drop l).take k⟩ := by
  rw [removeVecPartial] at h
  split at h
  · cases h
  · rename_i hpos
    have hl : pos + len / 2 ≤ p.vec.len := by omega
    have hsplit := p.splitAt_cells hl
    have hrest : (p.splitAt (pos + len / 2)).2.vec.len = p.vec.len - (pos + len / 2) := p.vec.drop_len _
    simp only at h
    split at h
    · rename_i h1
      cases h
      refine ⟨?_, pos + len / 2, 1, by omega, Nat.one_pos, by omega, ?_⟩
      · rw [dataCells_cons, dataCells_cons, ← hsplit, List.append_assoc, List.append_assoc]
        exact List.perm_append_comm.append_left _
      · simp only [Piece.splitAt, Piece.mk.injEq, true_and]
        simp only [Piece.splitAt] at h1
        rw [Vec.take, ← h1, Vec.len, List.take_length]
    · rename_i h1
      have hr := pcg.randN_lt (n := min 30 ((p.splitAt (pos + len / 2)).2.vec.len - 1)) (by omega)
      generalize pcg.randN (min 30 ((p.splitAt (pos + len / 2)).2.vec.len - 1)) = r at h hr
      cases h
      have hsplit' := (p.splitAt (pos + len / 2)).2.splitAt_cells (n := 1 + r.1) (by omega)
      refine ⟨?_, pos + len / 2, 1 + r.1, by omega, by omega, by omega, rfl⟩
      rw [dataCells_append, dataCells_cons, dataCells_cons, dataCells_cons, ← hsplit, ← hsplit']
      simp only [dataCells, List.flatMap_nil, List.append_nil, List.append_assoc]
      refine List.Perm.append_left _ (List.perm_append_comm.trans ?_)
      rw [← List.append_assoc]
      exact List.perm_append_comm.append_right _

end Zngtcp2.Crumble
