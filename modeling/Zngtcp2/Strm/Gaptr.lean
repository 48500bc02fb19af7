import Mathlib.Data.List.TakeWhile
import Zngtcp2.Reorder.Model

namespace Zngtcp2.Gaptr

open Reorder (Range)

/-- The keys of the skip list `gap`, in its order. -/
abbrev Gaps := List Range

def intersects (a b : Range) : Bool :=
  max a.begin b.begin < min a.endOff b.endOff

def rangeExclusiveCompar (a b : Range) : Bool :=
  a.begin < b.begin && !intersects a b

/-- The left and the right part that `ngtcp2_range_cut` leaves of `k`; empty parts are not kept. -/
def cut (k q : Range) : Gaps :=
  let m : Range := ⟨max q.begin k.begin, min q.endOff k.endOff⟩
  (if k.begin < m.begin then [⟨k.begin, m.begin⟩] else []) ++ (if m.endOff < k.endOff then [⟨m.endOff, k.endOff⟩] else [])

def pushLoop (q : Range) : Gaps → Gaps
  | [] => []
  | k :: ks => if intersects q k then cut k q ++ pushLoop q ks else k :: ks

def initialized (gaps : Gaps) : Gaps :=
  if gaps = [] then [⟨0, uint64Max⟩] else gaps

def push (gaps : Gaps) (offset datalen : Nat) : Gaps :=
  let q : Range := ⟨offset, offset + datalen⟩
  (initialized gaps).takeWhile (rangeExclusiveCompar · q) ++
    pushLoop q ((initialized gaps).dropWhile (rangeExclusiveCompar · q))

def firstGapOffset : Gaps → Nat
  | [] => 0
  | k :: _ => k.begin

/-- The gap at or after `offset`; `none` is the failing assertion. -/
def firstGapAfter (gaps : Gaps) (offset : Nat) : Option Range :=
  ((initialized gaps).dropWhile (rangeExclusiveCompar · ⟨offset, offset + 1⟩)).head?

/-- `ngtcp2_gaptr_is_pushed` -/
def isPushed (gaps : Gaps) (offset datalen : Nat) : Except Fault Bool :=
  if gaps = [] then .ok false
  else
    match gaps.dropWhile (rangeExclusiveCompar · ⟨offset, offset + datalen⟩) with
    | [] => .error .assertion
    | k :: _ => .ok (!intersects ⟨offset, offset + datalen⟩ k)

def dropFirstGap (gaps : Gaps) : Gaps :=
  gaps.tail

def Mem (gaps : Gaps) (x : Nat) : Prop :=
  ∃ k ∈ gaps, k.begin ≤ x ∧ x < k.endOff

structure Sorted (gaps : Gaps) : Prop where
  lt : ∀ k ∈ gaps, k.begin < k.endOff
  pairwise : gaps.Pairwise (fun a b => a.endOff ≤ b.begin)

theorem intersects_iff {a b : Range} :
    intersects a b = true ↔ max a.begin b.begin < min a.endOff b.endOff := by
  simp [intersects]

theorem rangeExclusiveCompar_iff {a b : Range} :
    rangeExclusiveCompar a b = true ↔ a.begin < b.begin ∧ min a.endOff b.endOff ≤ max a.begin b.begin := by
  simp only [rangeExclusiveCompar, intersects, Bool.and_eq_true, decide_eq_true_eq, Bool.not_eq_true',
    decide_eq_false_iff_not, Nat.not_lt]

theorem mem_cons {k : Range} {ks : Gaps} {x : Nat} :
    Mem (k :: ks) x ↔ (k.begin ≤ x ∧ x < k.endOff) ∨ Mem ks x := by
  simp [Mem]

theorem mem_append {ks js : Gaps} {x : Nat} : Mem (ks ++ js) x ↔ Mem ks x ∨ Mem js x := by
  simp only [Mem, List.mem_append]
  constructor
  · rintro ⟨k, hk | hk, h⟩
    · exact Or.inl ⟨k, hk, h⟩
    · exact Or.inr ⟨k, hk, h⟩
  · rintro (⟨k, hk, h⟩ | ⟨k, hk, h⟩)
    · exact ⟨k, Or.inl hk, h⟩
    · exact ⟨k, Or.inr hk, h⟩

theorem Sorted.tail {k : Range} {ks : Gaps} (h : Sorted (k :: ks)) : Sorted ks :=
  ⟨fun j hj => h.lt j (List.mem_cons_of_mem k hj), h.pairwise.of_cons⟩

theorem Sorted.of_append {ks js : Gaps} (h : Sorted (ks ++ js)) : Sorted js := by
  induction ks with
  | nil => exact h
  | cons k ks ih => exact ih h.tail

theorem Sorted.le_of_mem_tail {k : Range} {ks : Gaps} (h : Sorted (k :: ks)) {x : Nat} (hx : Mem ks x) :
    k.endOff ≤ x := by
  obtain ⟨j, hj, hjx, _⟩ := hx
  exact Nat.le_trans ((List.pairwise_cons.mp h.pairwise).1 j hj) hjx

/-- Every gap of the list lies in one of `ks`. -/
def Inside (js ks : Gaps) : Prop :=
  ∀ j ∈ js, ∃ k ∈ ks, k.begin ≤ j.begin ∧ j.endOff ≤ k.endOff

theorem mem_cut {k q : Range} (hm : intersects q k = true) {x : Nat} :
    Mem (cut k q) x ↔ (k.begin ≤ x ∧ x < k.endOff) ∧ ¬(q.begin ≤ x ∧ x < q.endOff) := by
  rw [intersects_iff] at hm
  rw [cut, mem_append]
  simp only [Mem]
  split_ifs <;> simp <;> omega

theorem cut_inside {k q : Range} (hm : intersects q k = true) : Inside (cut k q) [k] := by
  rw [intersects_iff] at hm
  intro j hj
  refine ⟨k, List.mem_singleton_self k, ?_⟩
  simp only [cut, List.mem_append, List.mem_ite_nil_right, List.mem_singleton] at hj
  rcases hj with ⟨h, rfl⟩ | ⟨h, rfl⟩
  · simp only at h ⊢
    omega
  · simp only at h ⊢
    omega

theorem cut_sorted {k q : Range} (hm : intersects q k = true) : Sorted (cut k q) := by
  rw [intersects_iff] at hm
  constructor
  · intro j hj
    simp only [cut, List.mem_append, List.mem_ite_nil_right, List.mem_singleton] at hj
    rcases hj with ⟨h, rfl⟩ | ⟨h, rfl⟩
    · exact h
    · exact h
  · rw [cut]
    split_ifs <;> simp
    omega

theorem Inside.append {js js' ks ks' : Gaps} (h : Inside js ks) (h' : Inside js' ks') :
    Inside (js ++ js') (ks ++ ks') := by
  intro j hj
  rcases List.mem_append.mp hj with hj | hj
  · obtain ⟨k, hk, hin⟩ := h j hj
    exact ⟨k, List.mem_append_left ks' hk, hin⟩
  · obtain ⟨k, hk, hin⟩ := h' j hj
    exact ⟨k, List.mem_append_right ks hk, hin⟩

theorem Inside.refl (ks : Gaps) : Inside ks ks :=
  fun j hj => ⟨j, hj, Nat.le_refl _, Nat.le_refl _⟩

/-- Gaps inside two sorted lists, one after the other, follow each other. -/
theorem Sorted.append {js js' ks ks' : Gaps} (hjs : Sorted js) (hjs' : Sorted js') (h : Inside js ks)
    (h' : Inside js' ks') (hks : Sorted (ks ++ ks')) : Sorted (js ++ js') := by
  refine ⟨?_, ?_⟩
  · intro j hj
    rcases List.mem_append.mp hj with hj | hj
    · exact hjs.lt j hj
    · exact hjs'.lt j hj
  · refine List.pairwise_append.mpr ⟨hjs.pairwise, hjs'.pairwise, ?_⟩
    intro a ha b hb
    obtain ⟨k, hk, _, hak⟩ := h a ha
    obtain ⟨k', hk', hbk, _⟩ := h' b hb
    have hle := (List.pairwise_append.mp hks.pairwise).2.2 k hk k' hk'
    omega

theorem pushLoop_inside (q : Range) (ks : Gaps) : Inside (pushLoop q ks) ks := by
  induction ks with
  | nil => exact Inside.refl []
  | cons k ks ih =>
      rw [pushLoop]
      split
      · rename_i hm
        exact (cut_inside hm).append ih
      · exact Inside.refl _

theorem pushLoop_sorted (q : Range) {ks : Gaps} (h : Sorted ks) : Sorted (pushLoop q ks) := by
  induction ks with
  | nil => exact h
  | cons k ks ih =>
      rw [pushLoop]
      split
      · rename_i hm
        exact (cut_sorted hm).append (ih h.tail) (cut_inside hm) (pushLoop_inside q ks) h
      · exact h

/-- The loop takes the range out of gaps that do not lie before it. -/
theorem mem_pushLoop {q : Range} {ks : Gaps} (h : Sorted ks)
    (hfirst : ∀ k ∈ ks.head?, rangeExclusiveCompar k q = false) {x : Nat} :
    Mem (pushLoop q ks) x ↔ Mem ks x ∧ ¬(q.begin ≤ x ∧ x < q.endOff) := by
  induction ks with
  | nil => simp [pushLoop, Mem]
  | cons k ks ih =>
      have hlt := h.lt k List.mem_cons_self
      have hk := hfirst k rfl
      rw [← Bool.not_eq_true, rangeExclusiveCompar_iff] at hk
      rw [pushLoop]
      split
      · rename_i hm
        have hrest : ∀ j ∈ ks.head?, rangeExclusiveCompar j q = false := by
          intro j hj
          have hj' := (List.pairwise_cons.mp h.pairwise).1 j (List.mem_of_mem_head? hj)
          rw [intersects_iff] at hm
          rw [← Bool.not_eq_true, rangeExclusiveCompar_iff]
          omega
        rw [mem_append, mem_cut hm, ih h.tail hrest, mem_cons]
        tauto
      · rename_i hm
        rw [intersects_iff] at hm
        constructor
        · intro hx
          refine ⟨hx, ?_⟩
          rcases mem_cons.mp hx with hx | hx
          · omega
          · have hle := h.le_of_mem_tail hx
            omega
        · exact And.left

theorem sorted_initialized {gaps : Gaps} (h : Sorted gaps) : Sorted (initialized gaps) := by
  rw [initialized]
  split
  · exact ⟨by simp [uint64Max], List.pairwise_singleton _ _⟩
  · exact h

theorem push_sorted {gaps : Gaps} (h : Sorted gaps) (offset datalen : Nat) : Sorted (push gaps offset datalen) := by
  have hs := sorted_initialized h
  rw [push]
  set p := fun k : Range => rangeExclusiveCompar k ⟨offset, offset + datalen⟩
  rw [← List.takeWhile_append_dropWhile (p := p) (l := initialized gaps)] at hs
  have htake : Sorted ((initialized gaps).takeWhile p) :=
    ⟨fun k hk => hs.lt k (List.mem_append_left _ hk), (List.pairwise_append.mp hs.pairwise).1⟩
  exact htake.append (pushLoop_sorted _ hs.of_append) (Inside.refl _) (pushLoop_inside _ _) hs

theorem mem_push {gaps : Gaps} (h : Sorted gaps) {offset datalen x : Nat} :
    Mem (push gaps offset datalen) x ↔
      Mem (initialized gaps) x ∧ ¬(offset ≤ x ∧ x < offset + datalen) := by
  have hs := sorted_initialized h
  rw [push]
  set q : Range := ⟨offset, offset + datalen⟩
  set p := fun k : Range => rangeExclusiveCompar k q
  have hsplit := List.takeWhile_append_dropWhile (p := p) (l := initialized gaps)
  rw [← hsplit] at hs
  have hfirst : ∀ k ∈ ((initialized gaps).dropWhile p).head?, rangeExclusiveCompar k q = false := by
    intro k hk
    have := List.head?_dropWhile_not p (initialized gaps)
    rw [Option.mem_def.mp hk] at this
    simpa using this
  conv_rhs => rw [← hsplit, mem_append]
  rw [mem_append, mem_pushLoop hs.of_append hfirst]
  constructor
  · rintro (hx | hx)
    · refine ⟨Or.inl hx, ?_⟩
      obtain ⟨k, hk, hkx⟩ := hx
      have hpk : p k = true := List.mem_takeWhile_imp hk
      simp only [p, q, rangeExclusiveCompar_iff] at hpk
      omega
    · exact ⟨Or.inr hx.1, hx.2⟩
  · rintro ⟨hx | hx, hq⟩
    · exact Or.inl hx
    · exact Or.inr ⟨hx, hq⟩

theorem mem_of_mem_initialized {gaps : Gaps} (hne : gaps ≠ []) {x : Nat} :
    Mem (initialized gaps) x ↔ Mem gaps x := by
  rw [initialized, if_neg hne]

theorem mem_initialized_nil {x : Nat} : Mem (initialized []) x ↔ x < uint64Max := by
  simp [initialized, Mem]

theorem Mem.ne_nil {gaps : Gaps} {x : Nat} (h : Mem gaps x) : gaps ≠ [] := by
  rintro rfl
  simp [Mem] at h

theorem mem_firstGapOffset {gaps : Gaps} (h : Sorted gaps) (hne : gaps ≠ []) : Mem gaps (firstGapOffset gaps) := by
  cases gaps with
  | nil => exact absurd rfl hne
  | cons k ks => exact mem_cons.mpr (Or.inl ⟨Nat.le_refl _, h.lt k List.mem_cons_self⟩)

theorem firstGapOffset_le {gaps : Gaps} (h : Sorted gaps) {x : Nat} (hx : Mem gaps x) : firstGapOffset gaps ≤ x := by
  cases gaps with
  | nil => exact Nat.zero_le _
  | cons k ks =>
      rcases mem_cons.mp hx with hx | hx
      · exact hx.1
      · have hlt := h.lt k List.mem_cons_self
        have hle := h.le_of_mem_tail hx
        simp only [firstGapOffset]
        omega

/-- A gap, with nothing missing between `offset` and its begin. -/
structure IsFirstGap (missing : Nat → Prop) (offset : Nat) (k : Range) : Prop where
  lt : k.begin < k.endOff
  after : offset < k.endOff
  before : ∀ x, offset ≤ x → x < k.begin → ¬missing x
  inside : ∀ x, k.begin ≤ x → x < k.endOff → missing x

theorem firstGapAfter_spec {gaps : Gaps} (h : Sorted gaps) {offset y : Nat} (hy : Mem gaps y) (hle : offset ≤ y) :
    ∃ k, firstGapAfter gaps offset = some k ∧ IsFirstGap (Mem gaps) offset k := by
  set p := fun k : Range => rangeExclusiveCompar k ⟨offset, offset + 1⟩ with hp
  have hbefore : ∀ k ∈ gaps.takeWhile p, k.endOff ≤ offset := by
    intro k hk
    have hpk : p k = true := List.mem_takeWhile_imp hk
    have hlt := h.lt k ((List.takeWhile_sublist p).subset hk)
    simp only [hp, rangeExclusiveCompar_iff] at hpk
    omega
  have hsplit := List.takeWhile_append_dropWhile (p := p) (l := gaps)
  rw [firstGapAfter, initialized, if_neg hy.ne_nil]
  cases hd : gaps.dropWhile p with
  | nil =>
      rw [hd, List.append_nil] at hsplit
      obtain ⟨k, hk, hky⟩ := hy
      have := hbefore k (by rwa [hsplit])
      omega
  | cons k ks =>
      refine ⟨k, rfl, ?_⟩
      rw [hd] at hsplit
      have hpk : p k = false := by
        have := List.head?_dropWhile_not p gaps
        rw [hd] at this
        simpa using this
      have hk : k ∈ gaps := by
        rw [← hsplit]
        exact List.mem_append_right _ List.mem_cons_self
      have hlt := h.lt k hk
      simp only [hp, ← Bool.not_eq_true, rangeExclusiveCompar_iff] at hpk
      refine ⟨hlt, by omega, ?_, fun x hx hx' => ⟨k, hk, hx, hx'⟩⟩
      intro x hx hxk hmem
      rw [← hsplit, mem_append] at hmem
      rw [← hsplit] at h
      rcases hmem with ⟨j, hj, _, hjx⟩ | hmem
      · have := hbefore j hj
        omega
      · rcases mem_cons.mp hmem with hin | hin
        · omega
        · have := h.of_append.le_of_mem_tail hin
          omega

theorem firstGapAfter_initialized (gaps : Gaps) (offset : Nat) :
    firstGapAfter (initialized gaps) offset = firstGapAfter gaps offset := by
  have hinit : initialized (initialized gaps) = initialized gaps := by
    by_cases hnil : gaps = []
    · rw [hnil]
      rfl
    · rw [initialized, initialized, if_neg hnil, if_neg hnil]
  rw [firstGapAfter, firstGapAfter, hinit]

theorem firstGapAfter_end {gaps : Gaps} (h : Sorted gaps) {offset : Nat} {k : Range}
    (hk : firstGapAfter gaps offset = some k) : offset < k.endOff := by
  have hmem : k ∈ initialized gaps := (List.dropWhile_sublist _).subset (List.mem_of_head? hk)
  have hlt := (sorted_initialized h).lt k hmem
  have hnot := List.head?_dropWhile_not (rangeExclusiveCompar · ⟨offset, offset + 1⟩) (initialized gaps)
  rw [firstGapAfter] at hk
  rw [hk] at hnot
  have hnot : ¬rangeExclusiveCompar k ⟨offset, offset + 1⟩ = true := by simpa using hnot
  simp only [rangeExclusiveCompar_iff] at hnot
  omega

/-- Whether one number was pushed. -/
theorem isPushed_one {gaps : Gaps} (h : Sorted gaps) {x y : Nat} (hy : Mem (initialized gaps) y) (hle : x ≤ y) :
    ∃ b, isPushed gaps x 1 = .ok b ∧ (b = false ↔ Mem (initialized gaps) x) := by
  rw [isPushed]
  split
  · rename_i hnil
    subst hnil
    rw [mem_initialized_nil] at hy ⊢
    exact ⟨false, rfl, fun _ => by omega, fun _ => rfl⟩
  · rename_i hne
    rw [mem_of_mem_initialized hne] at hy ⊢
    obtain ⟨k, hk, hfirst⟩ := firstGapAfter_spec h hy hle
    rw [firstGapAfter, initialized, if_neg hne] at hk
    obtain ⟨ks, hks⟩ := List.head?_eq_some_iff.mp hk
    rw [hks]
    refine ⟨_, rfl, ?_⟩
    rw [Bool.not_eq_false', intersects_iff]
    have hlt := hfirst.lt
    have hafter := hfirst.after
    simp only
    constructor
    · intro hin
      exact hfirst.inside x (by omega) (by omega)
    · intro hmem
      by_contra hout
      exact hfirst.before x (Nat.le_refl x) (by omega) hmem

theorem pushLoop_one_length {x : Nat} {ks : Gaps} (h : Sorted ks) : (pushLoop ⟨x, x + 1⟩ ks).length ≤ ks.length + 1 := by
  cases ks with
  | nil => exact Nat.zero_le _
  | cons k ks =>
      rw [pushLoop]
      split
      · rename_i hin
        rw [intersects_iff] at hin
        simp only at hin
        have hrest : pushLoop ⟨x, x + 1⟩ ks = ks := by
          cases ks with
          | nil => rfl
          | cons j js =>
              have hle := (List.pairwise_cons.mp h.pairwise).1 j List.mem_cons_self
              rw [pushLoop, if_neg]
              rw [intersects_iff]
              simp only
              omega
        have hcut : (cut k ⟨x, x + 1⟩).length ≤ 2 := by
          rw [cut]
          split
          · split
            · exact Nat.le_refl 2
            · exact Nat.le_succ 1
          · split
            · exact Nat.le_succ 1
            · exact Nat.zero_le 2
        rw [hrest, List.length_append, List.length_cons]
        omega
      · exact Nat.le_succ _

theorem push_one_length {gaps : Gaps} (h : Sorted gaps) (x : Nat) :
    (push gaps x 1).length ≤ (initialized gaps).length + 1 := by
  have hs := sorted_initialized h
  rw [push]
  set p := fun k : Range => rangeExclusiveCompar k ⟨x, x + 1⟩
  have hsplit : (initialized gaps).takeWhile p ++ (initialized gaps).dropWhile p = initialized gaps :=
    List.takeWhile_append_dropWhile
  have hlen := congrArg List.length hsplit
  rw [← hsplit] at hs
  have hloop := pushLoop_one_length (x := x) hs.of_append
  rw [List.length_append] at hlen ⊢
  omega

/-- A gap ends where it did before, or where the pushed range begins. -/
theorem pushLoop_ends {q k : Range} {ks : Gaps} (hk : k ∈ pushLoop q ks) :
    k.endOff = q.begin ∨ ∃ k' ∈ ks, k.endOff = k'.endOff := by
  induction ks with
  | nil => cases hk
  | cons j ks ih =>
      rw [pushLoop] at hk
      split at hk
      · rcases List.mem_append.mp hk with hk | hk
        · simp only [cut, List.mem_append, List.mem_ite_nil_right, List.mem_singleton] at hk
          rcases hk with ⟨hlt, rfl⟩ | ⟨_, rfl⟩
          · left
            simp only at hlt ⊢
            omega
          · exact Or.inr ⟨j, List.mem_cons_self, rfl⟩
        · rcases ih hk with hk | ⟨k', hk', hend⟩
          · exact Or.inl hk
          · exact Or.inr ⟨k', List.mem_cons_of_mem j hk', hend⟩
      · exact Or.inr ⟨k, hk, rfl⟩

theorem push_ends {gaps : Gaps} {offset datalen : Nat} {k : Range} (hk : k ∈ push gaps offset datalen) :
    k.endOff = offset ∨ ∃ k' ∈ initialized gaps, k.endOff = k'.endOff := by
  rw [push] at hk
  rcases List.mem_append.mp hk with hk | hk
  · exact Or.inr ⟨k, (List.takeWhile_sublist _).subset hk, rfl⟩
  · rcases pushLoop_ends hk with hk | ⟨k', hk', hend⟩
    · exact Or.inl hk
    · exact Or.inr ⟨k', (List.dropWhile_sublist _).subset hk', hend⟩

theorem mem_tail {k : Range} {ks : Gaps} (h : Sorted (k :: ks)) {x : Nat} :
    Mem (dropFirstGap (k :: ks)) x ↔ Mem (k :: ks) x ∧ ¬(k.begin ≤ x ∧ x < k.endOff) := by
  rw [mem_cons, dropFirstGap, List.tail_cons]
  constructor
  · intro hx
    have hle := h.le_of_mem_tail hx
    exact ⟨Or.inr hx, by omega⟩
  · rintro ⟨hx | hx, hnot⟩
    · exact absurd hx hnot
    · exact hx

end Zngtcp2.Gaptr
