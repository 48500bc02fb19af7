import Mathlib.Tactic.Ring
import Mathlib.Data.List.Basic

namespace Zngtcp2.Strm

/-- A data vector: its address and the bytes there. -/
structure Vec where
  base : Nat
  bytes : List UInt8
  deriving DecidableEq, Repr

namespace Vec

def len (v : Vec) : Nat :=
  v.bytes.length

def drop (v : Vec) (n : Nat) : Vec :=
  ⟨v.base + n, v.bytes.drop n⟩

def take (v : Vec) (n : Nat) : Vec :=
  ⟨v.base, v.bytes.take n⟩

@[simp]
theorem drop_bytes (v : Vec) (n : Nat) : (v.drop n).bytes = v.bytes.drop n :=
  rfl

@[simp]
theorem take_bytes (v : Vec) (n : Nat) : (v.take n).bytes = v.bytes.take n :=
  rfl

@[simp]
theorem drop_len (v : Vec) (n : Nat) : (v.drop n).len = v.len - n :=
  List.length_drop

theorem take_len (v : Vec) {n : Nat} (h : n ≤ v.len) : (v.take n).len = n := by
  rw [len, take_bytes, List.length_take]
  exact Nat.min_eq_left h

end Vec

def vecBytes (data : List Vec) : List UInt8 :=
  (data.map Vec.bytes).flatten

@[simp]
theorem vecBytes_nil : vecBytes [] = [] :=
  rfl

@[simp]
theorem vecBytes_cons (v : Vec) (vs : List Vec) : vecBytes (v :: vs) = v.bytes ++ vecBytes vs := by
  simp [vecBytes]

@[simp]
theorem vecBytes_append (vs ws : List Vec) : vecBytes (vs ++ ws) = vecBytes vs ++ vecBytes ws := by
  simp [vecBytes]

/-- `ngtcp2_vec_len`. -/
def vecLen (data : List Vec) : Nat :=
  (vecBytes data).length

@[simp]
theorem vecLen_nil : vecLen [] = 0 :=
  rfl

@[simp]
theorem vecLen_cons (v : Vec) (vs : List Vec) : vecLen (v :: vs) = v.len + vecLen vs := by
  simp [vecLen, Vec.len]

@[simp]
theorem vecLen_append (vs ws : List Vec) : vecLen (vs ++ ws) = vecLen vs + vecLen ws := by
  simp [vecLen]

theorem vecBytes_length (data : List Vec) : (vecBytes data).length = vecLen data :=
  rfl

theorem vecLen_pos {data : List Vec} (hne : data ≠ []) (hpos : ∀ v ∈ data, 0 < v.len) : 0 < vecLen data := by
  cases data with
  | nil => exact absurd rfl hne
  | cons v vs =>
      have := hpos v List.mem_cons_self
      rw [vecLen_cons]
      omega

/-- `ngtcp2_vec_split` into an empty destination: what stays in `src`, and the destination. -/
def vecSplit (maxcnt : Nat) : List Vec → Nat → List Vec × List Vec
  | [], _ => ([], [])
  | v :: vs, left =>
      if v.len ≤ left then
        let r := vecSplit maxcnt vs (left - v.len)
        (v :: r.1, r.2)
      else if maxcnt < vs.length + 1 then (v :: vs, [])
      else if left = 0 then ([], v :: vs)
      else ([v.take left], v.drop left :: vs)

/-- Appends a vector, joining it to the last one where their memory is adjacent. -/
def appendVec (maxcnt : Nat) (dst : List Vec) (v : Vec) : Option (List Vec) :=
  match dst.getLast? with
  | some a =>
      if a.base + a.len = v.base then some (dst.dropLast ++ [⟨a.base, a.bytes ++ v.bytes⟩])
      else if dst.length = maxcnt then none
      else some (dst ++ [v])
  | none => some [v]

structure Merged where
  dst : List Vec
  src : List Vec
  nmerged : Nat
  deriving DecidableEq, Repr

def mergeLoop (maxcnt : Nat) : List Vec → List Vec → Nat → Merged
  | dst, [], _ => ⟨dst, [], 0⟩
  | dst, b :: bs, left =>
      if left = 0 then ⟨dst, b :: bs, 0⟩
      else if left < b.len then
        match appendVec maxcnt dst (b.take left) with
        | none => ⟨dst, b :: bs, 0⟩
        | some dst => ⟨dst, b.drop left :: bs, left⟩
      else
        match appendVec maxcnt dst b with
        | none => ⟨dst, b :: bs, 0⟩
        | some dst =>
            let r := mergeLoop maxcnt dst bs (left - b.len)
            { r with nmerged := b.len + r.nmerged }

/-- `ngtcp2_vec_merge`. With an empty destination and a first vector longer than `left`, the
destination count stays 0. -/
def vecMerge (maxcnt : Nat) (dst src : List Vec) (left : Nat) : Merged :=
  match dst, src with
  | [], b :: bs =>
      if left < b.len then ⟨[], b.drop left :: bs, left⟩
      else
        let r := mergeLoop maxcnt [b] bs (left - b.len)
        { r with nmerged := b.len + r.nmerged }
  | dst, src => mergeLoop maxcnt dst src left

theorem vecSplit_spec {maxcnt : Nat} {data : List Vec} (hcnt : data.length ≤ maxcnt) (left : Nat) :
    vecBytes (vecSplit maxcnt data left).1 = (vecBytes data).take left ∧
      vecBytes (vecSplit maxcnt data left).2 = (vecBytes data).drop left := by
  induction data generalizing left with
  | nil => simp [vecSplit]
  | cons v vs ih =>
      have hvs : vs.length ≤ maxcnt := Nat.le_of_succ_le hcnt
      have hlen : v.bytes.length = v.len := rfl
      rw [vecSplit]
      split
      · rename_i hle
        obtain ⟨h₁, h₂⟩ := ih hvs (left - v.len)
        simp only [vecBytes_cons, h₁, h₂, List.take_append, List.drop_append, hlen]
        rw [List.take_of_length_le (l := v.bytes) hle, List.drop_of_length_le (l := v.bytes) hle]
        exact ⟨rfl, (List.nil_append _).symm⟩
      · rename_i hlt
        have hsub : left - v.bytes.length = 0 := by omega
        rw [if_neg (by simp only [List.length_cons] at hcnt; omega)]
        split
        · rename_i h0
          subst h0
          simp
        · simp only [vecBytes_cons, vecBytes_nil, List.append_nil, Vec.take_bytes, Vec.drop_bytes, List.take_append,
            List.drop_append, hsub, List.take_zero, List.drop_zero, and_self]

theorem vecSplit_length {maxcnt : Nat} {data : List Vec} (hcnt : data.length ≤ maxcnt) (left : Nat) :
    (vecSplit maxcnt data left).1.length ≤ data.length ∧ (vecSplit maxcnt data left).2.length ≤ data.length := by
  induction data generalizing left with
  | nil => simp [vecSplit]
  | cons v vs ih =>
      have hvs : vs.length ≤ maxcnt := Nat.le_of_succ_le hcnt
      rw [vecSplit]
      split
      · obtain ⟨h₁, h₂⟩ := ih hvs (left - v.len)
        simp only [List.length_cons]
        omega
      · rw [if_neg (by simp only [List.length_cons] at hcnt; omega)]
        split <;> simp

theorem vecSplit_pos (maxcnt : Nat) {data : List Vec} (hpos : ∀ v ∈ data, 0 < v.len) (left : Nat) :
    (∀ v ∈ (vecSplit maxcnt data left).1, 0 < v.len) ∧ ∀ v ∈ (vecSplit maxcnt data left).2, 0 < v.len := by
  induction data generalizing left with
  | nil => simp [vecSplit]
  | cons v vs ih =>
      have hv := hpos v List.mem_cons_self
      have hvs : ∀ w ∈ vs, 0 < w.len := fun w hw => hpos w (List.mem_cons_of_mem v hw)
      rw [vecSplit]
      split
      · obtain ⟨h₁, h₂⟩ := ih hvs (left - v.len)
        exact ⟨List.forall_mem_cons.mpr ⟨hv, h₁⟩, h₂⟩
      · rename_i hlt
        split
        · exact ⟨hpos, by simp⟩
        · split
          · exact ⟨by simp, hpos⟩
          · refine ⟨?_, List.forall_mem_cons.mpr ⟨by rw [Vec.drop_len]; omega, hvs⟩⟩
            intro w hw
            rw [List.mem_singleton.mp hw, Vec.take_len v (by omega)]
            omega

/-- What holds of the vectors of every frame with copied data. -/
structure VecsOk (maxcnt : Nat) (data : List Vec) : Prop where
  ne_nil : data ≠ []
  length_le : data.length ≤ maxcnt
  pos : ∀ v ∈ data, 0 < v.len

theorem VecsOk.len_pos {maxcnt : Nat} {data : List Vec} (h : VecsOk maxcnt data) : 0 < vecLen data :=
  vecLen_pos h.ne_nil h.pos

theorem VecsOk.snoc {maxcnt : Nat} {ws : List Vec} {v : Vec} (hlen : ws.length < maxcnt)
    (hpos : ∀ w ∈ ws, 0 < w.len) (hv : 0 < v.len) : VecsOk maxcnt (ws ++ [v]) := by
  refine ⟨by simp, by simp only [List.length_append, List.length_singleton]; omega, ?_⟩
  intro w hw
  rcases List.mem_append.mp hw with hw | hw
  · exact hpos w hw
  · rw [List.mem_singleton.mp hw]
    exact hv

theorem appendVec_spec {maxcnt : Nat} {dst dst' : List Vec} {v : Vec} (h : VecsOk maxcnt dst) (hv : 0 < v.len)
    (happ : appendVec maxcnt dst v = some dst') :
    VecsOk maxcnt dst' ∧ vecBytes dst' = vecBytes dst ++ v.bytes := by
  have hlen := h.length_le
  have hpos := h.pos
  rcases List.eq_nil_or_concat dst with hnil | ⟨ws, a, hdst⟩
  · exact absurd hnil h.ne_nil
  · rw [List.concat_eq_append] at hdst
    subst hdst
    simp only [List.length_append, List.length_singleton] at hlen
    rw [appendVec, List.getLast?_concat] at happ
    simp only [List.dropLast_concat] at happ
    split at happ
    · cases happ
      refine ⟨VecsOk.snoc (by omega) (fun w hw => hpos w (List.mem_append_left _ hw)) ?_, ?_⟩
      · simp only [Vec.len, List.length_append] at hv ⊢
        omega
      · simp
    · split at happ
      · cases happ
      · rename_i hne
        cases happ
        refine ⟨VecsOk.snoc ?_ hpos hv, by simp⟩
        simp only [List.length_append, List.length_singleton] at hne ⊢
        omega

structure MergeSpec (maxcnt : Nat) (dst src : List Vec) (left : Nat) (r : Merged) : Prop where
  ok : VecsOk maxcnt r.dst
  src_length : r.src.length ≤ src.length
  src_pos : ∀ v ∈ r.src, 0 < v.len
  nmerged_le : r.nmerged ≤ left
  nmerged_len : r.nmerged ≤ vecLen src
  dst_bytes : vecBytes r.dst = vecBytes dst ++ (vecBytes src).take r.nmerged
  src_bytes : vecBytes r.src = (vecBytes src).drop r.nmerged

theorem mergeLoop_spec {maxcnt : Nat} {dst src : List Vec} (h : VecsOk maxcnt dst) (hsrc : ∀ v ∈ src, 0 < v.len)
    (left : Nat) : MergeSpec maxcnt dst src left (mergeLoop maxcnt dst src left) := by
  induction src generalizing dst left with
  | nil => exact ⟨h, Nat.le_refl _, hsrc, Nat.zero_le _, Nat.zero_le _, by simp [mergeLoop], by simp [mergeLoop]⟩
  | cons b bs ih =>
      have hb := hsrc b List.mem_cons_self
      have hbs : ∀ v ∈ bs, 0 < v.len := fun v hv => hsrc v (List.mem_cons_of_mem b hv)
      have hstay : MergeSpec maxcnt dst (b :: bs) left ⟨dst, b :: bs, 0⟩ :=
        ⟨h, Nat.le_refl _, hsrc, Nat.zero_le _, Nat.zero_le _, by simp, by simp⟩
      have hlen : b.bytes.length = b.len := rfl
      rw [mergeLoop]
      split
      · exact hstay
      · rename_i hleft
        split
        · rename_i hlt
          cases happ : appendVec maxcnt dst (b.take left) with
          | none => exact hstay
          | some dst' =>
              have htake := b.take_len (Nat.le_of_lt hlt)
              obtain ⟨hok, hbytes⟩ := appendVec_spec h (by omega) happ
              have hsub : left - b.bytes.length = 0 := by omega
              refine ⟨hok, Nat.le_refl _, ?_, Nat.le_refl _, ?_, ?_, ?_⟩
              · exact List.forall_mem_cons.mpr ⟨by rw [Vec.drop_len]; omega, hbs⟩
              · rw [vecLen_cons]
                simp only
                omega
              · simp only [hbytes, vecBytes_cons, List.take_append, hsub, List.take_zero, List.append_nil,
                  Vec.take_bytes]
              · simp only [vecBytes_cons, List.drop_append, hsub, List.drop_zero, Vec.drop_bytes]
        · rename_i hge
          cases happ : appendVec maxcnt dst b with
          | none => exact hstay
          | some dst' =>
              obtain ⟨hok, hbytes⟩ := appendVec_spec h hb happ
              have hr := ih hok hbs (left - b.len)
              have hle := hr.nmerged_le
              have hle' := hr.nmerged_len
              refine ⟨hr.ok, Nat.le_succ_of_le hr.src_length, hr.src_pos, ?_, ?_, ?_, ?_⟩
              · simp only
                omega
              · rw [vecLen_cons]
                simp only
                omega
              · simp only [hr.dst_bytes, hbytes, vecBytes_cons, List.append_assoc, List.take_append, hlen,
                  Nat.add_sub_cancel_left]
                rw [List.take_of_length_le (l := b.bytes) (by omega)]
              · simp only [hr.src_bytes, vecBytes_cons, List.drop_append, hlen, Nat.add_sub_cancel_left]
                rw [List.drop_of_length_le (l := b.bytes) (by omega), List.nil_append]

theorem vecMerge_spec {maxcnt : Nat} {dst src : List Vec} (h : VecsOk maxcnt dst) (hsrc : ∀ v ∈ src, 0 < v.len)
    (left : Nat) : MergeSpec maxcnt dst src left (vecMerge maxcnt dst src left) := by
  cases dst with
  | nil => exact absurd rfl h.ne_nil
  | cons a as => exact mergeLoop_spec h hsrc left

end Zngtcp2.Strm
