import Mathlib.Algebra.Order.BigOperators.Group.List
import Mathlib.Algebra.Group.Action.Defs
import Mathlib.Algebra.Order.Group.Nat
import Zngtcp2.Tx.Crypto

namespace Zngtcp2.Crumble

open Strm CryptoTx

namespace Piece

/-- The type, the offset and the length of the CRYPTO frame. -/
def headerLen (p : Piece) : Nat :=
  1 + uvarintlen p.offset + uvarintlen p.vec.len

def encodedLen (p : Piece) : Nat :=
  p.headerLen + p.vec.len

end Piece

def Item.encodedLen : Item → Nat
  | .crypto p => p.encodedLen
  | .ping => 1
  | .padding len => len

/-- What the headers of all pieces but the first take. -/
def headersLen (data : List Piece) : Nat :=
  (data.tail.map Piece.headerLen).sum

def dataLen (data : List Piece) : Nat :=
  (data.map fun p => p.vec.len).sum

/-- The first piece starts at `offset`. -/
def Starts (offset : Nat) (data : List Piece) : Prop :=
  ∃ p ps, data = p :: ps ∧ p.offset = offset

/-- No piece reaches behind `stop`. -/
def Before (stop : Nat) (data : List Piece) : Prop :=
  ∀ p ∈ data, p.offset + p.vec.len ≤ stop

/-- In each round of `ngtcp2_pkt_split_vec_rand` the index is one of a piece. -/
def SplitAsserted : Nat → List Piece → Pcg32 → Prop
  | 0, _, _ => True
  | maxAdd + 1, data, pcg =>
      let r := pcg.randN data.length
      r.1 < data.length ∧ ∀ v, data[r.1]? = some v →
        if v.vec.len ≤ 1 then SplitAsserted maxAdd data r.2
        else SplitAsserted maxAdd (data.set r.1 (v.splitAt (v.vec.len / 2)).1 ++ [(v.splitAt (v.vec.len / 2)).2]) r.2

section Split

variable {data : List Piece} {offset stop : Nat}

theorem set_split_starts (h : Starts offset data) {i : Nat} {v : Piece} (hv : data[i]? = some v) (n : Nat) :
    Starts offset (data.set i (v.splitAt n).1 ++ [(v.splitAt n).2]) := by
  obtain ⟨p, ps, rfl, hp⟩ := h
  cases i with
  | zero =>
      rw [List.getElem?_cons_zero] at hv
      cases hv
      exact ⟨(v.splitAt n).1, ps ++ [(v.splitAt n).2], rfl, hp⟩
  | succ i => exact ⟨p, ps.set i (v.splitAt n).1 ++ [(v.splitAt n).2], rfl, hp⟩

theorem splitAt_before {v : Piece} (h : v.offset + v.vec.len ≤ stop) {n : Nat} (hn : n ≤ v.vec.len) :
    (v.splitAt n).1.offset + (v.splitAt n).1.vec.len ≤ stop ∧ (v.splitAt n).2.offset + (v.splitAt n).2.vec.len ≤ stop := by
  have htake : (v.splitAt n).1.vec.len = n := v.vec.take_len hn
  have hdrop : (v.splitAt n).2.vec.len = v.vec.len - n := v.vec.drop_len n
  have hoff₁ : (v.splitAt n).1.offset = v.offset := rfl
  have hoff₂ : (v.splitAt n).2.offset = v.offset + n := rfl
  omega

theorem set_split_before (h : Before stop data) {i : Nat} {v : Piece} (hv : data[i]? = some v) {n : Nat} (hn : n ≤ v.vec.len) :
    Before stop (data.set i (v.splitAt n).1 ++ [(v.splitAt n).2]) := by
  obtain ⟨hfst, hsnd⟩ := splitAt_before (h v (List.mem_of_getElem? hv)) hn
  intro p hp
  rcases List.mem_append.mp hp with hp | hp
  · rcases List.mem_or_eq_of_mem_set hp with hp | rfl
    · exact h p hp
    · exact hfst
  · rw [List.mem_singleton.mp hp]
    exact hsnd

/-- What every split keeps, splitting at random keeps. -/
theorem splitVecRand_induct {P : List Piece → Prop}
    (hsplit : ∀ (data : List Piece) (i : Nat) (v : Piece), data[i]? = some v → P data →
      P (data.set i (v.splitAt (v.vec.len / 2)).1 ++ [(v.splitAt (v.vec.len / 2)).2]))
    (maxAdd : Nat) (data : List Piece) (pcg : Pcg32) (h : P data) : P (splitVecRand maxAdd data pcg).1 := by
  induction maxAdd generalizing data pcg with
  | zero => exact h
  | succ maxAdd ih =>
      rw [splitVecRand]
      simp only
      split
      · exact h
      · rename_i v hv
        split
        · exact ih data _ h
        · exact ih _ _ (hsplit data _ v hv h)

theorem splitVecRand_starts (maxAdd : Nat) (pcg : Pcg32) (h : Starts offset data) :
    Starts offset (splitVecRand maxAdd data pcg).1 :=
  splitVecRand_induct (fun _ _ _ hv hs => set_split_starts hs hv _) maxAdd data pcg h

theorem splitVecRand_before (maxAdd : Nat) (pcg : Pcg32) (h : Before stop data) :
    Before stop (splitVecRand maxAdd data pcg).1 :=
  splitVecRand_induct (fun _ _ _ hv hs => set_split_before hs hv (Nat.div_le_self _ _)) maxAdd data pcg h

theorem splitVecRand_length (maxAdd : Nat) (data : List Piece) (pcg : Pcg32) :
    (splitVecRand maxAdd data pcg).1.length ≤ data.length + maxAdd := by
  induction maxAdd generalizing data pcg with
  | zero => exact Nat.le_refl _
  | succ maxAdd ih =>
      rw [splitVecRand]
      simp only
      split
      · exact Nat.le_add_right _ _
      · split
        · exact (ih data _).trans (Nat.add_le_add_left (Nat.le_succ maxAdd) _)
        · refine (ih _ _).trans ?_
          rw [List.length_append, List.length_set, List.length_singleton]
          omega

/-- The assertion of `ngtcp2_pkt_split_vec_rand` holds in each of its rounds. -/
theorem splitVecRand_asserted (maxAdd : Nat) (pcg : Pcg32) (h : Starts offset data) : SplitAsserted maxAdd data pcg := by
  induction maxAdd generalizing data pcg with
  | zero => trivial
  | succ maxAdd ih =>
      have hlt : (pcg.randN data.length).1 < data.length := by
        apply pcg.randN_lt
        obtain ⟨p, ps, rfl, -⟩ := h
        exact Nat.succ_pos _
      refine ⟨hlt, fun v hv => ?_⟩
      split
      · exact ih _ h
      · exact ih _ (set_split_starts h hv _)

theorem splitVecAt_eq {n : Nat} {p : Piece} {ps : List Piece} (h : n < p.vec.len) :
    splitVecAt n (p :: ps) = some ((p :: ps).set 0 (p.splitAt n).1 ++ [(p.splitAt n).2]) := by
  rw [splitVecAt, if_pos h]
  rfl

/-- The assertions of `ngtcp2_pkt_remove_vec_partial` hold for a part that the server name is. -/
theorem removeVecPartial_isSome {pos len : Nat} {p : Piece} (ps : List Piece) (pcg : Pcg32) (hpos : 0 < pos)
    (hle : pos + len ≤ p.vec.len) (hlen : 1 < len) : ∃ r, removeVecPartial pos len pcg (p :: ps) = some r := by
  rw [removeVecPartial, if_neg (by omega)]
  simp only
  split
  · exact ⟨_, rfl⟩
  · exact ⟨_, rfl⟩

/-- What is left is not more than one piece more, and lies where it was. -/
theorem removeVecPartial_left {pos len : Nat} {p removed : Piece} {ps data' : List Piece} {pcg pcg' : Pcg32}
    (h : removeVecPartial pos len pcg (p :: ps) = some (data', removed, pcg')) (hb : Before stop (p :: ps)) :
    data'.length ≤ ps.length + 2 ∧ Starts p.offset data' ∧ Before stop data' := by
  obtain ⟨hp, hps⟩ := List.forall_mem_cons.mp hb
  rw [removeVecPartial] at h
  split at h
  · cases h
  · rename_i hpos
    obtain ⟨hfst, hsnd⟩ := splitAt_before hp (n := pos + len / 2) (by omega)
    have hrest : (p.splitAt (pos + len / 2)).2.vec.len = p.vec.len - (pos + len / 2) := p.vec.drop_len _
    simp only at h
    split at h
    · cases h
      exact ⟨Nat.le_succ _, ⟨_, _, rfl, rfl⟩, List.forall_mem_cons.mpr ⟨hfst, hps⟩⟩
    · rename_i h1
      have hr := pcg.randN_lt (n := min 30 ((p.splitAt (pos + len / 2)).2.vec.len - 1)) (by omega)
      generalize pcg.randN (min 30 ((p.splitAt (pos + len / 2)).2.vec.len - 1)) = r at h hr
      cases h
      have hback := (splitAt_before hsnd (n := 1 + r.1) (by omega)).2
      refine ⟨?_, ⟨_, _, rfl, rfl⟩, ?_⟩
      · rw [List.length_append, List.length_cons, List.length_singleton]
      · intro q hq
        rcases List.mem_append.mp hq with hq | hq
        · rcases List.mem_cons.mp hq with rfl | hq
          · exact hfst
          · exact hps q hq
        · rw [List.mem_singleton.mp hq]
          exact hback

end Split

section Padding

theorem appendPingAndPadding_length (fuel n : Nat) (pcg : Pcg32) : (appendPingAndPadding fuel n pcg).1.length ≤ fuel := by
  induction fuel generalizing n pcg with
  | zero => exact Nat.le_refl _
  | succ fuel ih =>
      rw [appendPingAndPadding]
      split
      · exact Nat.zero_le _
      · simp only
        split
        · exact Nat.succ_le_succ (ih _ _)
        · exact Nat.succ_le_succ (ih _ _)

theorem appendPingAndPadding_sum (fuel n : Nat) (pcg : Pcg32) :
    ((appendPingAndPadding fuel n pcg).1.map Item.encodedLen).sum ≤ n := by
  induction fuel generalizing n pcg with
  | zero => exact Nat.zero_le _
  | succ fuel ih =>
      rw [appendPingAndPadding]
      split
      · exact Nat.zero_le _
      · rename_i hn
        have hmod := Nat.mod_le (n + 1) (2 ^ 32)
        simp only
        split
        · have := ih (n - 1) (pcg.randN ((n + 1) % 2 ^ 32)).2
          rw [List.map_cons, List.sum_cons, Item.encodedLen]
          omega
        · rename_i hk
          have hpos : 0 < (n + 1) % 2 ^ 32 := by
            by_contra hzero
            apply hk
            rw [Nat.eq_zero_of_not_pos hzero, Pcg32.randN, Nat.mul_zero, Nat.zero_div]
          have hlt := pcg.randN_lt hpos
          have := ih (n - (pcg.randN ((n + 1) % 2 ^ 32)).1) (pcg.randN ((n + 1) % 2 ^ 32)).2
          rw [List.map_cons, List.sum_cons, Item.encodedLen]
          omega

theorem appendPingAndPadding_pos (fuel n : Nat) (pcg : Pcg32) :
    ∀ i ∈ (appendPingAndPadding fuel n pcg).1, 0 < i.encodedLen := by
  induction fuel generalizing n pcg with
  | zero => exact List.forall_mem_nil _
  | succ fuel ih =>
      rw [appendPingAndPadding]
      split
      · exact List.forall_mem_nil _
      · simp only
        split
        · exact List.forall_mem_cons.mpr ⟨Nat.one_pos, ih _ _⟩
        · rename_i hk
          exact List.forall_mem_cons.mpr ⟨Nat.pos_of_ne_zero hk, ih _ _⟩

theorem permutateVec_sum (items : List Item) (pcg : Pcg32) :
    ((permutateVec items pcg).1.map Item.encodedLen).sum = (items.map Item.encodedLen).sum :=
  ((permutateVec_perm items pcg).map Item.encodedLen).sum_eq

end Padding

section Len

theorem dataCells_length (data : List Piece) : (dataCells data).length = dataLen data := by
  induction data with
  | nil => rfl
  | cons p ps ih =>
      rw [dataCells_cons, List.length_append, ih, Piece.cells, Lib.Segment.cells_length, dataLen, dataLen, List.map_cons,
        List.sum_cons]
      rfl

theorem len_le_dataLen {data : List Piece} {p : Piece} (hp : p ∈ data) : p.vec.len ≤ dataLen data :=
  List.single_le_sum (fun _ _ => Nat.zero_le _) _ (List.mem_map_of_mem hp)

theorem encodedLen_sum (p : Piece) (ps : List Piece) :
    (((p :: ps).map Item.crypto).map Item.encodedLen).sum = dataLen (p :: ps) + p.headerLen + headersLen (p :: ps) := by
  have hall : ∀ qs : List Piece, ((qs.map Item.crypto).map Item.encodedLen).sum = dataLen qs + (qs.map Piece.headerLen).sum := by
    intro qs
    induction qs with
    | nil => rfl
    | cons q qs ih =>
        simp only [dataLen, List.map_cons, List.sum_cons] at ih ⊢
        rw [ih, Item.encodedLen, Piece.encodedLen]
        omega
  rw [hall, headersLen, List.tail_cons, List.map_cons, List.sum_cons, Nat.add_assoc]

theorem uvarintlen_mono {n m : Nat} (h : n ≤ m) : uvarintlen n ≤ uvarintlen m := by
  rw [uvarintlen, uvarintlen]
  split_ifs
  · simp only [Pkt.putUvarintlen]
    split_ifs <;> omega
  · rw [Pkt.putUvarintlen]
    split_ifs <;> omega
  · omega
  · exact Nat.le_refl _

/-- Few enough pieces are charged before they are made. -/
theorem headersLen_le {data : List Piece} {stop n : Nat} (hb : Before stop data) (hlen : data.length ≤ n + 1) {top left : Nat}
    (htop : stop ≤ top) (hleft : ∀ p ∈ data, p.vec.len ≤ left) :
    headersLen data ≤ (1 + uvarintlen top + uvarintlen left) * n := by
  have hall : ∀ k ∈ data.tail.map Piece.headerLen, k ≤ 1 + uvarintlen top + uvarintlen left := by
    intro k hk
    obtain ⟨p, hp, rfl⟩ := List.mem_map.mp hk
    have hmem := List.mem_of_mem_tail hp
    have hoff := uvarintlen_mono (show p.offset ≤ top from (Nat.le_of_add_right_le (hb p hmem)).trans htop)
    have hvec := uvarintlen_mono (hleft p hmem)
    rw [Piece.headerLen]
    omega
  have hsum := List.sum_le_card_nsmul _ _ hall
  rw [List.length_map, List.length_tail, smul_eq_mul, Nat.mul_comm] at hsum
  exact hsum.trans (Nat.mul_le_mul_left _ (by omega))

end Len

end Zngtcp2.Crumble
