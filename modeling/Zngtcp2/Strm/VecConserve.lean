import Zngtcp2.Strm.Vec

namespace Zngtcp2.Strm

/-- The outcome of a split that was made. -/
structure Split where
  nmoved : Nat
  dst : List Vec
  src : List Vec
  deriving DecidableEq, Repr

/-- The vector ends where the first one of the destination begins. -/
def adjoins (v : Vec) : List Vec → Bool
  | [] => false
  | d :: _ => v.base + v.len = d.base

def joinFirst (v : Vec) : List Vec → List Vec
  | [] => []
  | d :: ds => ⟨v.base, v.bytes ++ d.bytes⟩ :: ds

def dropFirst (n : Nat) : List Vec → List Vec
  | [] => []
  | v :: vs => v.drop n :: vs

/-- `ngtcp2_vec_split` where `left` lies in `v`, from which on vectors are moved; `none` is -1. -/
def splitFrom (maxcnt : Nat) (dst : List Vec) (v : Vec) (vs : List Vec) (left : Nat) : Option Split :=
  let last := (v :: vs).getLast (List.cons_ne_nil v vs)
  let src := if left = 0 then [] else [v.take left]
  if adjoins last dst then
    if maxcnt < dst.length + vs.length then none
    else
      let dst := dropFirst left ((v :: vs).dropLast ++ joinFirst last dst)
      let extra := if vs.length = 0 then last.len - left else last.len
      some ⟨vecLen (dst.take vs.length) + extra, dst, src⟩
  else if maxcnt < dst.length + (vs.length + 1) then none
  else
    let dst := dropFirst left (v :: vs ++ dst)
    some ⟨vecLen (dst.take (vs.length + 1)), dst, src⟩

/-- `ngtcp2_vec_split` -/
def vecSplitInto (maxcnt : Nat) (dst : List Vec) : List Vec → Nat → Option Split
  | [], _ => some ⟨0, dst, []⟩
  | v :: vs, left =>
      if v.len ≤ left then
        (vecSplitInto maxcnt dst vs (left - v.len)).map fun r => { r with src := v :: r.src }
      else splitFrom maxcnt dst v vs left

/-- An empty destination takes the vectors as they are. -/
theorem vecSplitInto_nil (maxcnt : Nat) (src : List Vec) (left : Nat) :
    vecSplit maxcnt src left =
      match vecSplitInto maxcnt [] src left with
      | none => (src, [])
      | some r => (r.src, r.dst) := by
  induction src generalizing left with
  | nil => rfl
  | cons v vs ih =>
      rw [vecSplit, vecSplitInto]
      by_cases hle : v.len ≤ left
      · rw [if_pos hle, if_pos hle, ih]
        cases vecSplitInto maxcnt [] vs (left - v.len) <;> rfl
      rw [if_neg hle, if_neg hle]
      simp only [splitFrom, adjoins, Bool.false_eq_true, if_false, List.length_nil, Nat.zero_add]
      by_cases hfull : maxcnt < vs.length + 1
      · rw [if_pos hfull, if_pos hfull]
      rw [if_neg hfull, if_neg hfull]
      by_cases hzero : left = 0
      · rw [if_pos hzero, hzero]
        simp [dropFirst, Vec.drop]
      · simp [if_neg hzero, dropFirst]

/-- The first `left` bytes stay, and the others precede those of the destination. -/
structure SplitSpec (dst src : List Vec) (left : Nat) (r : Split) : Prop where
  src_bytes : vecBytes r.src = (vecBytes src).take left
  dst_bytes : vecBytes r.dst = (vecBytes src).drop left ++ vecBytes dst
  nmoved : r.nmoved = vecLen src - left

theorem vecBytes_dropLast (v : Vec) (vs : List Vec) :
    vecBytes (v :: vs).dropLast ++ ((v :: vs).getLast (List.cons_ne_nil v vs)).bytes = vecBytes (v :: vs) := by
  have hlast := List.dropLast_append_getLast (List.cons_ne_nil v vs)
  calc vecBytes (v :: vs).dropLast ++ ((v :: vs).getLast (List.cons_ne_nil v vs)).bytes
      = vecBytes ((v :: vs).dropLast ++ [(v :: vs).getLast (List.cons_ne_nil v vs)]) := by simp
    _ = vecBytes (v :: vs) := by rw [hlast]

theorem vecBytes_joinFirst {v : Vec} {dst : List Vec} (h : adjoins v dst = true) :
    vecBytes (joinFirst v dst) = v.bytes ++ vecBytes dst := by
  cases dst with
  | nil => cases h
  | cons d ds => simp [joinFirst]

theorem vecBytes_dropFirst {n : Nat} {v : Vec} (vs : List Vec) (h : n ≤ v.len) :
    vecBytes (dropFirst n (v :: vs)) = (vecBytes (v :: vs)).drop n := by
  rw [dropFirst, vecBytes_cons, vecBytes_cons, Vec.drop_bytes, List.drop_append_of_le_length h]

theorem splitFrom_spec {maxcnt left : Nat} {dst vs : List Vec} {v : Vec} {r : Split} (hlt : left < v.len)
    (h : splitFrom maxcnt dst v vs left = some r) : SplitSpec dst (v :: vs) left r := by
  have hlen : v.bytes.length = v.len := rfl
  have hsrc : vecBytes (if left = 0 then [] else [v.take left]) = (vecBytes (v :: vs)).take left := by
    rw [vecBytes_cons, List.take_append_of_le_length (by omega)]
    by_cases hzero : left = 0
    · rw [if_pos hzero, hzero, List.take_zero, vecBytes_nil]
    · rw [if_neg hzero, vecBytes_cons, vecBytes_nil, List.append_nil, Vec.take_bytes]
  have hdrop (bs : List UInt8) : (vecBytes (v :: vs) ++ bs).drop left = (vecBytes (v :: vs)).drop left ++ bs := by
    apply List.drop_append_of_le_length
    rw [vecBytes_cons, List.length_append]
    omega
  simp only [splitFrom] at h
  by_cases hadj : adjoins ((v :: vs).getLast (List.cons_ne_nil v vs)) dst = true
  · rw [if_pos hadj] at h
    have hjoin := vecBytes_joinFirst hadj
    have hlast := vecBytes_dropLast v vs
    split at h
    · cases h
    cases vs with
    | nil =>
        cases h
        cases dst with
        | nil => cases hadj
        | cons d ds =>
            have hle : left ≤ (⟨v.base, v.bytes ++ d.bytes⟩ : Vec).len := by
              simp only [Vec.len, List.length_append] at hlt ⊢
              omega
            refine ⟨hsrc, ?_, ?_⟩
            · change vecBytes (dropFirst left (⟨v.base, v.bytes ++ d.bytes⟩ :: ds)) = _
              rw [vecBytes_dropFirst ds hle, ← hdrop]
              simp
            · simp
    | cons w ws =>
        cases h
        have htotal := congrArg List.length hlast
        rw [List.length_append, vecBytes_length, vecBytes_length] at htotal
        have hfirst : (v :: w :: ws).dropLast = v :: (w :: ws).dropLast := rfl
        rw [hfirst, vecLen_cons] at htotal
        rw [hfirst, List.cons_append]
        refine ⟨hsrc, ?_, ?_⟩
        · rw [vecBytes_dropFirst _ (Nat.le_of_lt hlt), ← hdrop, ← List.cons_append, ← hfirst, vecBytes_append, hjoin,
            ← List.append_assoc, hlast]
        · have hcount : (w :: ws).dropLast.length = ws.length := by simp
          simp only [dropFirst, List.length_cons, List.take_succ_cons, List.take_left' hcount, vecLen_cons, Vec.drop_len]
          rw [if_neg (Nat.succ_ne_zero _)]
          simp only [vecLen_cons] at htotal
          simp only [Vec.len] at htotal hlt ⊢
          omega
  · rw [if_neg hadj] at h
    split at h
    · cases h
    cases h
    refine ⟨hsrc, ?_, ?_⟩
    · rw [List.cons_append, vecBytes_dropFirst _ (Nat.le_of_lt hlt), ← List.cons_append, vecBytes_append, hdrop]
    · simp only [List.cons_append, dropFirst, List.take_succ_cons, List.take_left, vecLen_cons, Vec.drop_len]
      omega

theorem vecSplitInto_spec {maxcnt left : Nat} {dst src : List Vec} {r : Split}
    (h : vecSplitInto maxcnt dst src left = some r) : SplitSpec dst src left r := by
  induction src generalizing left r with
  | nil =>
      cases h
      exact ⟨by simp, by simp, by simp⟩
  | cons v vs ih =>
      have hlen : v.bytes.length = v.len := rfl
      rw [vecSplitInto] at h
      by_cases hle : v.len ≤ left
      · rw [if_pos hle, Option.map_eq_some_iff] at h
        obtain ⟨r', hr', rfl⟩ := h
        obtain ⟨hsrc, hdst, hmoved⟩ := ih hr'
        refine ⟨?_, ?_, ?_⟩
        · rw [vecBytes_cons, vecBytes_cons, hsrc, List.take_append, List.take_of_length_le (l := v.bytes) (by omega)]
          rfl
        · rw [hdst, vecBytes_cons, List.drop_append, List.drop_of_length_le (l := v.bytes) (by omega)]
          rfl
        · simp only [hmoved, vecLen_cons]
          omega
      · rw [if_neg hle] at h
        exact splitFrom_spec (by omega) h

theorem appendVec_bytes {maxcnt : Nat} {dst dst' : List Vec} {v : Vec} (h : appendVec maxcnt dst v = some dst') :
    dst' ≠ [] ∧ vecBytes dst' = vecBytes dst ++ v.bytes := by
  rcases List.eq_nil_or_concat dst with rfl | ⟨ws, a, rfl⟩
  · cases h
    exact ⟨List.cons_ne_nil _ _, by simp⟩
  · rw [List.concat_eq_append, appendVec, List.getLast?_concat] at h
    simp only [List.dropLast_concat] at h
    split at h
    · cases h
      exact ⟨by simp, by simp⟩
    split at h
    · cases h
    · cases h
      exact ⟨by simp, by simp⟩

/-- The bytes that leave the source are those that the destination gets, whatever its count is. -/
structure MergeConserves (dst src : List Vec) (left : Nat) (r : Merged) : Prop where
  nmerged_le : r.nmerged ≤ left
  dst_bytes : vecBytes r.dst = vecBytes dst ++ (vecBytes src).take r.nmerged
  src_bytes : vecBytes r.src = (vecBytes src).drop r.nmerged

theorem mergeLoop_conserves (maxcnt : Nat) (dst src : List Vec) (left : Nat) :
    MergeConserves dst src left (mergeLoop maxcnt dst src left) := by
  induction src generalizing dst left with
  | nil => exact ⟨Nat.zero_le _, by simp [mergeLoop], by simp [mergeLoop]⟩
  | cons b bs ih =>
      have hstay : MergeConserves dst (b :: bs) left ⟨dst, b :: bs, 0⟩ := ⟨Nat.zero_le _, by simp, by simp⟩
      have hlen : b.bytes.length = b.len := rfl
      rw [mergeLoop]
      by_cases hzero : left = 0
      · rw [if_pos hzero]
        exact hstay
      rw [if_neg hzero]
      by_cases hlt : left < b.len
      · rw [if_pos hlt]
        cases happ : appendVec maxcnt dst (b.take left) with
        | none => exact hstay
        | some dst' =>
            obtain ⟨-, hbytes⟩ := appendVec_bytes happ
            change MergeConserves dst (b :: bs) left ⟨dst', b.drop left :: bs, left⟩
            refine ⟨Nat.le_refl _, ?_, ?_⟩
            · rw [hbytes, vecBytes_cons, List.take_append_of_le_length (Nat.le_of_lt hlt), Vec.take_bytes]
            · rw [vecBytes_cons, vecBytes_cons, List.drop_append_of_le_length (Nat.le_of_lt hlt), Vec.drop_bytes]
      · rw [if_neg hlt]
        cases happ : appendVec maxcnt dst b with
        | none => exact hstay
        | some dst' =>
            obtain ⟨-, hbytes⟩ := appendVec_bytes happ
            obtain ⟨hle, hdst, hsrc⟩ := ih dst' (left - b.len)
            refine ⟨?_, ?_, ?_⟩
            · simp only
              omega
            · simp only [hdst, hbytes, vecBytes_cons, List.append_assoc, List.take_append, hlen,
                Nat.add_sub_cancel_left]
              rw [List.take_of_length_le (l := b.bytes) (by omega)]
            · simp only [hsrc, vecBytes_cons, List.drop_append, hlen, Nat.add_sub_cancel_left]
              rw [List.drop_of_length_le (l := b.bytes) (by omega), List.nil_append]

/-- The address behind the last vector. -/
def lastEnd (dst : List Vec) : Nat :=
  match dst.getLast? with
  | some a => a.base + a.len
  | none => 0

/-- The vectors that the first `left` bytes lie in follow one another in memory, from the address `e` on. -/
def Joins : Nat → List Vec → Nat → Prop
  | _, [], _ => True
  | e, b :: bs, left => left = 0 ∨ b.base = e ∧ (left < b.len ∨ Joins (e + b.len) bs (left - b.len))

/-- A vector is joined to the last one, refused, or appended. -/
theorem appendVec_cases (maxcnt : Nat) {dst : List Vec} (hne : dst ≠ []) (v : Vec) :
    (v.base = lastEnd dst ∧ ∃ dst', appendVec maxcnt dst v = some dst' ∧ dst'.length = dst.length ∧
        lastEnd dst' = lastEnd dst + v.len) ∨
      v.base ≠ lastEnd dst ∧ dst.length = maxcnt ∧ appendVec maxcnt dst v = none ∨
      v.base ≠ lastEnd dst ∧ dst.length ≠ maxcnt ∧ appendVec maxcnt dst v = some (dst ++ [v]) := by
  rcases List.eq_nil_or_concat dst with hnil | ⟨ws, a, hdst⟩
  · exact absurd hnil hne
  rw [List.concat_eq_append] at hdst
  subst hdst
  rw [appendVec, lastEnd, List.getLast?_concat]
  simp only [List.dropLast_concat]
  by_cases hadj : a.base + a.len = v.base
  · rw [if_pos hadj]
    refine Or.inl ⟨hadj.symm, _, rfl, by simp, ?_⟩
    rw [lastEnd, List.getLast?_concat]
    simp only [Vec.len, List.length_append]
    omega
  rw [if_neg hadj]
  by_cases hfull : (ws ++ [a]).length = maxcnt
  · rw [if_pos hfull]
    exact Or.inr (Or.inl ⟨Ne.symm hadj, hfull, rfl⟩)
  · rw [if_neg hfull]
    exact Or.inr (Or.inr ⟨Ne.symm hadj, hfull, rfl⟩)

/-- One round of the loop, on what is taken of the vector. -/
theorem mergeLoop_cons {maxcnt left : Nat} (dst : List Vec) (b : Vec) (bs : List Vec) (hleft : left ≠ 0) :
    (mergeLoop maxcnt dst (b :: bs) left).dst =
      match appendVec maxcnt dst (b.take left) with
      | none => dst
      | some dst' => if left < b.len then dst' else (mergeLoop maxcnt dst' bs (left - b.len)).dst := by
  rw [mergeLoop, if_neg hleft]
  by_cases hlt : left < b.len
  · rw [if_pos hlt]
    cases appendVec maxcnt dst (b.take left) with
    | none => rfl
    | some dst' => exact (if_pos hlt).symm
  · have htake : b.take left = b := by
      rw [Vec.take, List.take_of_length_le (Nat.not_lt.mp hlt)]
    rw [if_neg hlt, htake]
    cases appendVec maxcnt dst b with
    | none => rfl
    | some dst' => exact (if_neg hlt).symm

/-- What appending one vector keeps, the loop keeps. -/
theorem mergeLoop_dst {P : List Vec → Prop} {maxcnt : Nat}
    (happend : ∀ dst v dst', dst ≠ [] → P dst → appendVec maxcnt dst v = some dst' → P dst') {dst : List Vec}
    (hne : dst ≠ []) (hP : P dst) (src : List Vec) (left : Nat) : P (mergeLoop maxcnt dst src left).dst := by
  induction src generalizing dst left with
  | nil => exact hP
  | cons b bs ih =>
      by_cases hzero : left = 0
      · rw [mergeLoop, if_pos hzero]
        exact hP
      rw [mergeLoop_cons dst b bs hzero]
      cases happ : appendVec maxcnt dst (b.take left) with
      | none => exact hP
      | some dst' =>
          have hP' := happend dst _ dst' hne hP happ
          by_cases hlt : left < b.len
          · simp only [if_pos hlt]
            exact hP'
          · simp only [if_neg hlt]
            exact ih (appendVec_bytes happ).1 hP' _

theorem appendVec_length {maxcnt : Nat} {dst dst' : List Vec} {v : Vec} (hne : dst ≠ [])
    (h : appendVec maxcnt dst v = some dst') :
    dst.length ≤ dst'.length ∧ (dst.length ≤ maxcnt → dst'.length ≤ maxcnt) := by
  rcases appendVec_cases maxcnt hne v with ⟨-, ws, happ, hlen, -⟩ | ⟨-, -, happ⟩ | ⟨-, hroom, happ⟩
  · rw [happ, Option.some.injEq] at h
    rw [← h, hlen]
    exact ⟨Nat.le_refl _, fun hle => hle⟩
  · rw [happ] at h
    cases h
  · rw [happ, Option.some.injEq] at h
    rw [← h, List.length_append, List.length_singleton]
    exact ⟨Nat.le_succ _, fun hle => Nat.lt_of_le_of_ne hle hroom⟩

theorem mergeLoop_length_ge (maxcnt : Nat) {dst : List Vec} (hne : dst ≠ []) (src : List Vec) (left : Nat) :
    dst.length ≤ (mergeLoop maxcnt dst src left).dst.length := by
  apply mergeLoop_dst (P := fun dst' => dst.length ≤ dst'.length) ?_ hne (Nat.le_refl _)
  intro ws v ws' hws hle happ
  exact Nat.le_trans hle (appendVec_length hws happ).1

theorem mergeLoop_length_le {maxcnt : Nat} {dst : List Vec} (hne : dst ≠ []) (hle : dst.length ≤ maxcnt)
    (src : List Vec) (left : Nat) : (mergeLoop maxcnt dst src left).dst.length ≤ maxcnt := by
  apply mergeLoop_dst (P := fun dst' => dst'.length ≤ maxcnt) ?_ hne hle
  intro ws v ws' hws hle happ
  exact (appendVec_length hws happ).2 hle

/-- A destination with more vectors than allowed keeps their number only if nothing has to be appended. -/
theorem mergeLoop_joins {maxcnt : Nat} {dst : List Vec} (hmax : maxcnt < dst.length) (src : List Vec) (left : Nat) :
    (mergeLoop maxcnt dst src left).dst.length ≤ dst.length ↔ Joins (lastEnd dst) src left := by
  induction src generalizing dst left with
  | nil => exact iff_of_true (Nat.le_refl _) trivial
  | cons b bs ih =>
      have hne : dst ≠ [] := List.ne_nil_of_length_pos (by omega)
      rw [Joins]
      by_cases hzero : left = 0
      · rw [mergeLoop, if_pos hzero]
        exact iff_of_true (Nat.le_refl _) (Or.inl hzero)
      rw [mergeLoop_cons dst b bs hzero]
      rcases appendVec_cases maxcnt hne (b.take left) with
        ⟨hbase, dst', happ, hlen, hend⟩ | ⟨-, hfull, -⟩ | ⟨hbase, -, happ⟩
      · have hbase : b.base = lastEnd dst := hbase
        rw [happ]
        simp only
        by_cases hlt : left < b.len
        · rw [if_pos hlt]
          exact iff_of_true (Nat.le_of_eq hlen) (Or.inr ⟨hbase, Or.inl hlt⟩)
        · have htake : (b.take left).len = b.len := by
            simp only [Vec.len, Vec.take_bytes, List.length_take] at hlt ⊢
            omega
          rw [htake] at hend
          rw [if_neg hlt, ← hlen, ih (by omega), hend]
          simp only [hzero, hbase, hlt, false_or, true_and]
      · omega
      · have hbase : b.base ≠ lastEnd dst := hbase
        rw [happ]
        refine iff_of_false (fun hle => ?_) (fun hc => hc.elim hzero fun hj => hbase hj.1)
        have hgrows : dst.length + 1 ≤
            (if left < b.len then dst ++ [b.take left]
              else (mergeLoop maxcnt (dst ++ [b.take left]) bs (left - b.len)).dst).length := by
          have happended : (dst ++ [b.take left]).length = dst.length + 1 := by simp
          by_cases hlt : left < b.len
          · rw [if_pos hlt, happended]
          · rw [if_neg hlt, ← happended]
            exact mergeLoop_length_ge maxcnt (by simp) _ _
        simp only at hle
        omega

/-- A merge conserves the bytes, and exceeds the count only if the destination did before. -/
structure MergeOk (maxcnt : Nat) (dst src : List Vec) (left : Nat) : Prop where
  conserves : MergeConserves dst src left (vecMerge maxcnt dst src left)
  length_le : (vecMerge maxcnt dst src left).dst.length ≤ max maxcnt dst.length

/-- A split that is made conserves the bytes; one that is refused changes nothing. -/
def SplitOk (maxcnt : Nat) (dst src : List Vec) (left : Nat) : Prop :=
  ∀ r, vecSplitInto maxcnt dst src left = some r → SplitSpec dst src left r

theorem vecMerge_ne_nil {maxcnt : Nat} {dst : List Vec} (hne : dst ≠ []) (src : List Vec) (left : Nat) :
    vecMerge maxcnt dst src left = mergeLoop maxcnt dst src left := by
  cases dst with
  | nil => exact absurd rfl hne
  | cons d ds => rfl

theorem mergeOk_ne_nil {maxcnt : Nat} {dst : List Vec} (hne : dst ≠ []) (src : List Vec) (left : Nat) :
    MergeOk maxcnt dst src left ↔ dst.length ≤ maxcnt ∨ Joins (lastEnd dst) src left := by
  have hmerge : vecMerge maxcnt dst src left = mergeLoop maxcnt dst src left := vecMerge_ne_nil hne src left
  have hconserves := mergeLoop_conserves maxcnt dst src left
  rw [← hmerge] at hconserves
  by_cases hle : dst.length ≤ maxcnt
  · refine iff_of_true ⟨hconserves, ?_⟩ (Or.inl hle)
    rw [hmerge]
    exact Nat.le_trans (mergeLoop_length_le hne hle src left) (Nat.le_max_left _ _)
  · have hjoins := mergeLoop_joins (Nat.lt_of_not_le hle) src left
    rw [or_iff_right hle, ← hjoins, ← hmerge]
    constructor
    · intro h
      have hlen := h.length_le
      omega
    · intro h
      exact ⟨hconserves, Nat.le_trans h (Nat.le_max_right _ _)⟩

/-- Into an empty destination: part of the first vector is taken out of the source, but never counted. -/
theorem mergeOk_nil {maxcnt : Nat} (hmax : 1 ≤ maxcnt) (src : List Vec) (left : Nat) :
    MergeOk maxcnt [] src left ↔ left = 0 ∨ ∀ b ∈ src.head?, b.len ≤ left := by
  cases src with
  | nil =>
      refine iff_of_true ⟨mergeLoop_conserves maxcnt [] [] left, Nat.zero_le _⟩ (Or.inr fun b hb => ?_)
      cases hb
  | cons b bs =>
      have hhead : (∀ c ∈ (b :: bs).head?, c.len ≤ left) ↔ b.len ≤ left := by simp
      rw [hhead]
      by_cases hlt : left < b.len
      · have hmerge : vecMerge maxcnt [] (b :: bs) left = ⟨[], b.drop left :: bs, left⟩ := if_pos hlt
        constructor
        · intro h
          have hbytes := congrArg List.length h.conserves.dst_bytes
          rw [hmerge] at hbytes
          simp only [vecBytes_nil, vecBytes_cons, List.nil_append, List.length_nil, List.length_take,
            List.length_append] at hbytes
          have hlen : b.bytes.length = b.len := rfl
          omega
        · intro h
          have hzero : left = 0 := by omega
          refine ⟨?_, ?_⟩
          · rw [hmerge, hzero]
            exact ⟨Nat.le_refl _, by simp, by simp⟩
          · rw [hmerge]
            exact Nat.zero_le _
      · have hmerge : vecMerge maxcnt [] (b :: bs) left =
            { mergeLoop maxcnt [b] bs (left - b.len) with
              nmerged := b.len + (mergeLoop maxcnt [b] bs (left - b.len)).nmerged } := if_neg hlt
        obtain ⟨hle, hdst, hsrc⟩ := mergeLoop_conserves maxcnt [b] bs (left - b.len)
        have hlen : b.bytes.length = b.len := rfl
        refine iff_of_true ⟨?_, ?_⟩ (Or.inr (Nat.not_lt.mp hlt))
        · rw [hmerge]
          refine ⟨?_, ?_, ?_⟩
          · simp only
            omega
          · simp only [hdst, vecBytes_cons, vecBytes_nil, List.append_nil, List.nil_append, List.take_append, hlen,
              Nat.add_sub_cancel_left]
            rw [List.take_of_length_le (l := b.bytes) (by omega)]
          · simp only [hsrc, vecBytes_cons, List.drop_append, hlen, Nat.add_sub_cancel_left]
            rw [List.drop_of_length_le (l := b.bytes) (by omega), List.nil_append]
        · rw [hmerge]
          exact Nat.le_trans (mergeLoop_length_le (List.cons_ne_nil b []) hmax bs _) (Nat.le_max_left _ _)

/-- A split always does what it should. A merge does just when it does not stop inside the first vector for
an empty destination, and a destination that has too many vectors already gets no further one. -/
theorem vec_conserve_iff (maxcnt : Nat) (hmax : 1 ≤ maxcnt) (dst src : List Vec) (left : Nat) :
    MergeOk maxcnt dst src left ∧ SplitOk maxcnt dst src left ↔
      (dst = [] → left = 0 ∨ ∀ b ∈ src.head?, b.len ≤ left) ∧
        (dst.length ≤ maxcnt ∨ Joins (lastEnd dst) src left) := by
  have hsplit : SplitOk maxcnt dst src left := fun _ => vecSplitInto_spec
  rw [and_iff_left hsplit]
  by_cases hnil : dst = []
  · rw [hnil, mergeOk_nil hmax]
    simp
  · rw [mergeOk_ne_nil hnil]
    simp [hnil]

/-- Two vectors, one of which follows the destination in memory. -/
theorem vec_conserve_iff_full :
    MergeOk 1 [⟨0, [1, 2]⟩, ⟨8, [3]⟩] [⟨9, [4]⟩, ⟨10, [5, 6]⟩] 2 ∧
      SplitOk 1 [⟨0, [1, 2]⟩, ⟨8, [3]⟩] [⟨9, [4]⟩, ⟨10, [5, 6]⟩] 2 := by
  refine (vec_conserve_iff 1 (by decide) [⟨0, [1, 2]⟩, ⟨8, [3]⟩] [⟨9, [4]⟩, ⟨10, [5, 6]⟩] 2).mpr ⟨?_, Or.inr ?_⟩
  · exact fun h => absurd h (List.cons_ne_nil _ _)
  · simp [Joins, lastEnd, Vec.len]

/-- The first byte of a vector disappears. -/
theorem vecMerge_loses :
    ¬ ∀ (maxcnt : Nat) (dst src : List Vec) (left : Nat), 1 ≤ maxcnt →
      MergeOk maxcnt dst src left ∧ SplitOk maxcnt dst src left := by
  intro h
  have hbytes := (h 16 [] [⟨0, [7, 8]⟩] 1 (by decide)).1.conserves.dst_bytes
  exact absurd hbytes (by decide)

end Zngtcp2.Strm
