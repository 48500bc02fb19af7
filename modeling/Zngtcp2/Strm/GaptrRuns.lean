import Mathlib.Order.Bounds.Basic
import Zngtcp2.Strm.Gaptr

namespace Zngtcp2.Gaptr

open Reorder (Range)

/-- The tracker after the given pushes, each an offset and a length. -/
def pushAll (pushes : List (Nat × Nat)) : Gaps :=
  pushes.foldl (fun gaps p => push gaps p.1 p.2) []

def Pushed (pushes : List (Nat × Nat)) (x : Nat) : Prop :=
  ∃ p ∈ pushes, p.1 ≤ x ∧ x < p.1 + p.2

/-- Two gaps have a number between them. -/
def Apart (gaps : Gaps) : Prop :=
  gaps.Pairwise (fun a b => a.endOff < b.begin)

/-- The gaps are exactly the numbers below `UINT64_MAX` without `P`, in as few ranges as possible. -/
structure Tracks (gaps : Gaps) (P : Nat → Prop) : Prop where
  sorted : Sorted gaps
  apart : Apart gaps
  mem : ∀ x, Mem (initialized gaps) x ↔ x < uint64Max ∧ ¬P x

theorem tracks_nil : Tracks [] (fun _ => False) := by
  refine ⟨⟨fun k hk => (nomatch hk), List.Pairwise.nil⟩, List.Pairwise.nil, fun x => ?_⟩
  rw [mem_initialized_nil]
  exact ⟨fun hx => ⟨hx, id⟩, And.left⟩

theorem Apart.append {js js' ks ks' : Gaps} (hjs : Apart js) (hjs' : Apart js') (h : Inside js ks)
    (h' : Inside js' ks') (hks : Apart (ks ++ ks')) : Apart (js ++ js') := by
  refine List.pairwise_append.mpr ⟨hjs, hjs', ?_⟩
  intro a ha b hb
  obtain ⟨k, hk, _, hak⟩ := h a ha
  obtain ⟨k', hk', hbk, _⟩ := h' b hb
  have hlt := (List.pairwise_append.mp hks).2.2 k hk k' hk'
  omega

theorem cut_apart {k q : Range} (hm : intersects q k = true) : Apart (cut k q) := by
  rw [intersects_iff] at hm
  rw [Apart, cut]
  split_ifs <;> simp
  omega

theorem pushLoop_apart (q : Range) {ks : Gaps} (h : Apart ks) : Apart (pushLoop q ks) := by
  induction ks with
  | nil => exact h
  | cons k ks ih =>
      rw [pushLoop]
      split
      · rename_i hm
        exact (cut_apart hm).append (ih (List.pairwise_cons.mp h).2) (cut_inside hm) (pushLoop_inside q ks) h
      · exact h

theorem apart_initialized {gaps : Gaps} (h : Apart gaps) : Apart (initialized gaps) := by
  rw [initialized]
  split
  · exact List.pairwise_singleton _ _
  · exact h

theorem push_apart {gaps : Gaps} (h : Apart gaps) (offset datalen : Nat) : Apart (push gaps offset datalen) := by
  have ha := apart_initialized h
  rw [push]
  set p := fun k : Range => rangeExclusiveCompar k ⟨offset, offset + datalen⟩
  rw [← List.takeWhile_append_dropWhile (p := p) (l := initialized gaps)] at ha
  obtain ⟨htake, hdrop, _⟩ := List.pairwise_append.mp ha
  exact Apart.append htake (pushLoop_apart _ hdrop) (Inside.refl _) (pushLoop_inside _ _) ha

/-- Below `2 ^ 62`, a push never takes the last gap away. -/
theorem Tracks.push {gaps : Gaps} {P : Nat → Prop} (h : Tracks gaps P) (hP : ∀ x, P x → x < 2 ^ 62)
    {offset datalen : Nat} (hle : offset + datalen ≤ 2 ^ 62) :
    Tracks (push gaps offset datalen) (fun x => P x ∨ (offset ≤ x ∧ x < offset + datalen)) := by
  have hmem : ∀ x, Mem (Gaptr.push gaps offset datalen) x ↔
      x < uint64Max ∧ ¬(P x ∨ (offset ≤ x ∧ x < offset + datalen)) := by
    intro x
    rw [mem_push h.sorted, h.mem]
    tauto
  have hlast : Mem (Gaptr.push gaps offset datalen) (2 ^ 62) := by
    refine (hmem _).mpr ⟨by simp [uint64Max], ?_⟩
    rintro (hx | hx)
    · exact Nat.lt_irrefl _ (hP _ hx)
    · omega
  refine ⟨push_sorted h.sorted _ _, push_apart h.apart _ _, fun x => ?_⟩
  rw [mem_of_mem_initialized hlast.ne_nil, hmem]

theorem Tracks.foldl {gaps : Gaps} {P : Nat → Prop} (h : Tracks gaps P) (hP : ∀ x, P x → x < 2 ^ 62)
    {pushes : List (Nat × Nat)} (hle : ∀ p ∈ pushes, p.1 + p.2 ≤ 2 ^ 62) :
    Tracks (pushes.foldl (fun gaps p => Gaptr.push gaps p.1 p.2) gaps) (fun x => P x ∨ Pushed pushes x) := by
  induction pushes generalizing gaps P with
  | nil =>
      refine ⟨h.sorted, h.apart, fun x => ?_⟩
      rw [List.foldl_nil, h.mem]
      simp [Pushed]
  | cons p ps ih =>
      obtain ⟨hp, hps⟩ := List.forall_mem_cons.mp hle
      have hbelow : ∀ x, P x ∨ (p.1 ≤ x ∧ x < p.1 + p.2) → x < 2 ^ 62 := by
        rintro x (hx | hx)
        · exact hP x hx
        · omega
      have hrest := ih (h.push hP hp) hbelow hps
      refine ⟨hrest.sorted, hrest.apart, fun x => ?_⟩
      rw [List.foldl_cons, hrest.mem]
      simp only [Pushed, List.exists_mem_cons_iff, or_assoc]

theorem pushAll_tracks {pushes : List (Nat × Nat)} (hle : ∀ p ∈ pushes, p.1 + p.2 ≤ 2 ^ 62) :
    Tracks (pushAll pushes) (Pushed pushes) := by
  have h := tracks_nil.foldl (fun x hx => absurd hx id) hle
  simp only [false_or] at h
  exact h

theorem pushed_lt {pushes : List (Nat × Nat)} (hle : ∀ p ∈ pushes, p.1 + p.2 ≤ 2 ^ 62) {x : Nat}
    (hx : Pushed pushes x) : x < 2 ^ 62 := by
  obtain ⟨p, hp, _, hlt⟩ := hx
  exact Nat.lt_of_lt_of_le hlt (hle p hp)

theorem Tracks.last_mem {gaps : Gaps} {P : Nat → Prop} (h : Tracks gaps P) (hP : ∀ x, P x → x < 2 ^ 62) {x : Nat} (hx : x < uint64Max) :
    ∃ y, x ≤ y ∧ Mem (initialized gaps) y := by
  refine ⟨max x (2 ^ 62), Nat.le_max_left _ _, (h.mem _).mpr ⟨?_, fun hlast => ?_⟩⟩
  · exact Nat.max_lt.mpr ⟨hx, by simp [uint64Max]⟩
  · exact Nat.not_lt.mpr (Nat.le_max_right _ _) (hP _ hlast)

theorem Tracks.firstGapOffset_isLeast {gaps : Gaps} {P : Nat → Prop} (h : Tracks gaps P) :
    IsLeast {x | ¬P x} (firstGapOffset gaps) := by
  by_cases hnil : gaps = []
  · subst hnil
    exact ⟨((h.mem 0).mp (mem_initialized_nil.mpr (by simp [uint64Max]))).2, fun x _ => Nat.zero_le x⟩
  have hmem := h.mem
  simp only [mem_of_mem_initialized hnil] at hmem
  have hfirst := (hmem _).mp (mem_firstGapOffset h.sorted hnil)
  refine ⟨hfirst.2, fun x hx => ?_⟩
  by_cases hlt : x < uint64Max
  · exact firstGapOffset_le h.sorted ((hmem x).mpr ⟨hlt, hx⟩)
  · omega

/-- A maximal range of numbers below `UINT64_MAX` without `P`, with no such number between `o` and
its begin. -/
structure IsGapAfter (P : Nat → Prop) (o : Nat) (k : Range) : Prop where
  lt : k.begin < k.endOff
  endOff_le : k.endOff ≤ uint64Max
  inside : ∀ x, k.begin ≤ x → x < k.endOff → ¬P x
  left : ∀ x, x + 1 = k.begin → P x
  right : k.endOff < uint64Max → P k.endOff
  after : o < k.endOff
  before : ∀ x, o ≤ x → x < k.begin → P x

/-- Nothing is missing right before and right after a gap. -/
theorem Apart.not_mem {gaps : Gaps} (h : Apart gaps) (hs : Sorted gaps) {k : Range} (hk : k ∈ gaps) {x : Nat}
    (hx : x + 1 = k.begin ∨ x = k.endOff) : ¬Mem gaps x := by
  rintro ⟨j, hj, hjx⟩
  have hlt := hs.lt k hk
  obtain ⟨i, hi, rfl⟩ := List.mem_iff_getElem.mp hk
  obtain ⟨i', hi', rfl⟩ := List.mem_iff_getElem.mp hj
  have hpair := List.pairwise_iff_getElem.mp h
  rcases Nat.lt_trichotomy i i' with hii | rfl | hii
  · have := hpair i i' hi hi' hii
    omega
  · omega
  · have := hpair i' i hi' hi hii
    omega

theorem Tracks.firstGapAfter {gaps : Gaps} {P : Nat → Prop} (h : Tracks gaps P) (hP : ∀ x, P x → x < 2 ^ 62)
    {o : Nat} (ho : o < uint64Max) : ∃ k, firstGapAfter gaps o = some k ∧ IsGapAfter P o k := by
  have hs := sorted_initialized h.sorted
  obtain ⟨y, hle, hy⟩ := h.last_mem hP ho
  obtain ⟨k, hk, hfirst⟩ := firstGapAfter_spec hs hy hle
  rw [firstGapAfter_initialized] at hk
  have hmem : k ∈ initialized gaps := (List.dropWhile_sublist _).subset (List.mem_of_head? hk)
  have hend : k.endOff ≤ uint64Max := by
    have hlt := hfirst.lt
    have := ((h.mem (k.endOff - 1)).mp (hfirst.inside _ (by omega) (by omega))).1
    omega
  have hnext : ∀ x, x + 1 = k.begin ∨ x = k.endOff → x < uint64Max → P x := by
    intro x hx hlt
    by_contra hnot
    exact (apart_initialized h.apart).not_mem hs hmem hx ((h.mem x).mpr ⟨hlt, hnot⟩)
  refine ⟨k, hk, hfirst.lt, hend, ?_, ?_, ?_, hfirst.after, ?_⟩
  · intro x hx hx'
    exact ((h.mem x).mp (hfirst.inside x hx hx')).2
  · intro x hx
    have hlt := hfirst.lt
    exact hnext x (Or.inl hx) (by omega)
  · exact hnext _ (Or.inr rfl)
  · intro x hx hx'
    have hlt := hfirst.lt
    by_contra hnot
    exact hfirst.before x hx hx' ((h.mem x).mpr ⟨by omega, hnot⟩)

theorem exclusive_of_mem_takeWhile {gaps : Gaps} {q k : Range} (hk : k ∈ gaps.takeWhile (rangeExclusiveCompar · q)) :
    k.begin < q.begin ∧ min k.endOff q.endOff ≤ max k.begin q.begin := by
  rw [← rangeExclusiveCompar_iff]
  exact @List.mem_takeWhile_imp _ (rangeExclusiveCompar · q) _ _ hk

/-- The range to look for is compared as its first number is. -/
theorem dropWhile_exclusive {gaps : Gaps} (h : Sorted gaps) {o n : Nat} (hn : 1 ≤ n) {k : Range} {ks : Gaps}
    (hd : gaps.dropWhile (rangeExclusiveCompar · ⟨o, o + n⟩) = k :: ks) :
    (∀ j ∈ gaps.takeWhile (rangeExclusiveCompar · ⟨o, o + n⟩), j.endOff ≤ o) ∧ o < k.endOff := by
  have hk : k ∈ gaps := (List.dropWhile_sublist _).subset (by rw [hd]; exact List.mem_cons_self)
  have hlt := h.lt k hk
  have hnot := List.head?_dropWhile_not (rangeExclusiveCompar · ⟨o, o + n⟩) gaps
  rw [hd] at hnot
  have hnot : ¬rangeExclusiveCompar k ⟨o, o + n⟩ = true := by simpa using hnot
  rw [rangeExclusiveCompar_iff] at hnot
  refine ⟨fun j hj => ?_, by simp only at hnot; omega⟩
  have hltj := h.lt j ((List.takeWhile_sublist _).subset hj)
  have hcompar := exclusive_of_mem_takeWhile hj
  simp only at hcompar
  omega

theorem Tracks.isPushed {gaps : Gaps} {P : Nat → Prop} (h : Tracks gaps P) (hP : ∀ x, P x → x < 2 ^ 62)
    {o n : Nat} (hn : 1 ≤ n) (hle : o + n ≤ uint64Max) :
    ∃ b, isPushed gaps o n = .ok b ∧ (b = true ↔ ∀ x, o ≤ x → x < o + n → P x) := by
  rw [Gaptr.isPushed]
  split
  · rename_i hnil
    subst hnil
    refine ⟨false, rfl, fun hb => absurd hb Bool.false_ne_true, fun hall => ?_⟩
    have hmem := (h.mem o).mp (mem_initialized_nil.mpr (by omega))
    exact absurd (hall o (Nat.le_refl o) (by omega)) hmem.2
  · rename_i hne
    have hmem := h.mem
    simp only [mem_of_mem_initialized hne] at hmem
    have hsplit := List.takeWhile_append_dropWhile (p := (rangeExclusiveCompar · ⟨o, o + n⟩)) (l := gaps)
    cases hd : gaps.dropWhile (rangeExclusiveCompar · ⟨o, o + n⟩) with
    | nil =>
        -- The last gap ends after every range that can be looked for.
        obtain ⟨y, hy, k, hk, hky⟩ := h.last_mem hP (show o + n - 1 < uint64Max by omega)
        rw [initialized, if_neg hne] at hk
        rw [hd, List.append_nil] at hsplit
        rw [← hsplit] at hk
        have hcompar := exclusive_of_mem_takeWhile hk
        simp only at hcompar
        omega
    | cons k ks =>
        obtain ⟨hbefore, hafter⟩ := dropWhile_exclusive h.sorted hn hd
        rw [hd] at hsplit
        have hsorted := h.sorted
        rw [← hsplit] at hsorted
        refine ⟨_, rfl, ?_⟩
        have hlt := hsorted.of_append.lt k List.mem_cons_self
        rw [Bool.not_eq_true', ← Bool.not_eq_true, intersects_iff]
        simp only
        constructor
        · intro hout x hx hx'
          by_contra hnot
          have hxmem := (hmem x).mpr ⟨by omega, hnot⟩
          rw [← hsplit, mem_append] at hxmem
          rcases hxmem with ⟨j, hj, _, hjx⟩ | hxmem
          · have := hbefore j hj
            omega
          · rcases mem_cons.mp hxmem with hin | hin
            · omega
            · have := hsorted.of_append.le_of_mem_tail hin
              omega
        · intro hall hin
          have hk : Mem gaps (max o k.begin) := by
            rw [← hsplit, mem_append, mem_cons]
            exact Or.inr (Or.inl ⟨by omega, by omega⟩)
          exact ((hmem _).mp hk).2 (hall _ (Nat.le_max_left _ _) (by omega))

/-- A gap after `o` is determined by what is missing. -/
theorem IsGapAfter.unique {P : Nat → Prop} {o : Nat} {k k' : Range} (h : IsGapAfter P o k) (h' : IsGapAfter P o k') :
    k = k' := by
  have begin_le : ∀ {k k' : Range}, IsGapAfter P o k → IsGapAfter P o k' → k'.begin ≤ k.begin := by
    intro k k' h h'
    by_contra hlt
    have hk := h.lt
    have hafter := h.after
    have hk' := h'.lt
    by_cases hin : o ≤ k'.begin - 1
    · refine h.inside (max o k.begin) (Nat.le_max_right _ _) (by omega) (h'.before _ (Nat.le_max_left _ _) (by omega))
    · exact h.inside (k'.begin - 1) (by omega) (by omega) (h'.left _ (by omega))
  have endOff_le : ∀ {k k' : Range}, k.begin = k'.begin → IsGapAfter P o k → IsGapAfter P o k' → k'.endOff ≤ k.endOff := by
    intro k k' hbegin h h'
    by_contra hlt
    have hk := h.lt
    have hend := h'.endOff_le
    exact h'.inside k.endOff (by omega) (by omega) (h.right (by omega))
  have hbegin := Nat.le_antisymm (begin_le h' h) (begin_le h h')
  have hend := Nat.le_antisymm (endOff_le hbegin.symm h' h) (endOff_le hbegin h h')
  cases k
  cases k'
  simp only at hbegin hend
  rw [hbegin, hend]

/-- The answers of a tracker, in terms of the set of pushed numbers. -/
structure Answers (gaps : Gaps) (P : Nat → Prop) : Prop where
  isPushed : ∀ o n, 1 ≤ n → o + n ≤ uint64Max →
    ∃ b, isPushed gaps o n = .ok b ∧ (b = true ↔ ∀ x, o ≤ x → x < o + n → P x)
  firstGapOffset : IsLeast {x | ¬P x} (firstGapOffset gaps)
  firstGapAfter : ∀ o, o < uint64Max → ∃ k, firstGapAfter gaps o = some k ∧ IsGapAfter P o k

theorem Tracks.answers {gaps : Gaps} {P : Nat → Prop} (h : Tracks gaps P) (hP : ∀ x, P x → x < 2 ^ 62) :
    Answers gaps P :=
  ⟨fun _ _ hn hle => h.isPushed hP hn hle, h.firstGapOffset_isLeast, fun _ ho => h.firstGapAfter hP ho⟩

/-- Two trackers answer alike. -/
structure SameAnswers (gaps gaps' : Gaps) : Prop where
  isPushed : ∀ o n, 1 ≤ n → o + n ≤ uint64Max → isPushed gaps o n = isPushed gaps' o n
  firstGapOffset : firstGapOffset gaps = firstGapOffset gaps'
  firstGapAfter : ∀ o, o < uint64Max → firstGapAfter gaps o = firstGapAfter gaps' o

theorem Answers.same {gaps gaps' : Gaps} {P : Nat → Prop} (h : Answers gaps P) (h' : Answers gaps' P) :
    SameAnswers gaps gaps' := by
  refine ⟨fun o n hn hle => ?_, h.firstGapOffset.unique h'.firstGapOffset, fun o ho => ?_⟩
  · obtain ⟨b, hb, hiff⟩ := h.isPushed o n hn hle
    obtain ⟨b', hb', hiff'⟩ := h'.isPushed o n hn hle
    rw [hb, hb', Bool.eq_iff_iff.mpr (hiff.trans hiff'.symm)]
  · obtain ⟨k, hk, hgap⟩ := h.firstGapAfter o ho
    obtain ⟨k', hk', hgap'⟩ := h'.firstGapAfter o ho
    rw [hk, hk', hgap.unique hgap']

/-- The tracker represents exactly the pushed offsets, whatever the order of the pushes and their
overlap. -/
theorem pushAll_answers (pushes : List (Nat × Nat)) (hle : ∀ p ∈ pushes, p.1 + p.2 ≤ 2 ^ 62) :
    Answers (pushAll pushes) (Pushed pushes) ∧
      ∀ pushes' : List (Nat × Nat), (∀ p ∈ pushes', p.1 + p.2 ≤ 2 ^ 62) →
        (∀ x, Pushed pushes' x ↔ Pushed pushes x) → SameAnswers (pushAll pushes') (pushAll pushes) := by
  have h := (pushAll_tracks hle).answers (fun _ => pushed_lt hle)
  refine ⟨h, fun pushes' hle' hsame => ?_⟩
  have h' := (pushAll_tracks hle').answers (fun _ => pushed_lt hle')
  rw [funext fun x => propext (hsame x)] at h'
  exact h'.same h

theorem pushAll_answers_three :
    Answers (pushAll [(10, 10), (5, 3), (18, 5)]) (Pushed [(10, 10), (5, 3), (18, 5)]) ∧
      firstGapAfter (pushAll [(10, 10), (5, 3), (18, 5)]) 6 = some ⟨8, 10⟩ :=
  ⟨(pushAll_answers [(10, 10), (5, 3), (18, 5)] (by decide)).1, by decide⟩

end Zngtcp2.Gaptr
