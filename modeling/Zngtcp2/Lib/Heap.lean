import Mathlib.Order.Defs.Unbundled
import Mathlib.Tactic.Ring

namespace Zngtcp2.Lib.Heap

/-- A binary heap in an array: the children of `i` are at `2 * i + 1` and `2 * i + 2`. -/
def parent (i : Nat) : Nat :=
  (i - 1) / 2

theorem parent_lt {i : Nat} (h : 0 < i) : parent i < i := by
  rw [parent]
  omega

theorem lt_of_parent {i k : Nat} (hi : 0 < i) (h : parent i = k) : k < i := by
  rw [← h]
  exact parent_lt hi

theorem parent_eq_iff {i k : Nat} (hi : 0 < i) : parent i = k ↔ i = 2 * k + 1 ∨ i = 2 * k + 2 := by
  rw [parent]
  omega

variable {α : Type} {lt : α → α → Prop} {n k : Nat} {q : Nat → α}

/-- The array with two of its elements exchanged. -/
def swap (q : Nat → α) (i j : Nat) : Nat → α :=
  fun x => if x = i then q j else if x = j then q i else q x

@[simp]
theorem swap_left (q : Nat → α) (i j : Nat) : swap q i j i = q j := if_pos rfl

@[simp]
theorem swap_right (q : Nat → α) (i j : Nat) : swap q i j j = q i := by
  by_cases h : j = i
  · rw [h, swap_left]
  · rw [swap, if_neg h, if_pos rfl]

theorem swap_of_ne {i j x : Nat} (hi : x ≠ i) (hj : x ≠ j) : swap q i j x = q x := by
  rw [swap, if_neg hi, if_neg hj]

/-- No element is less than its parent. -/
def Ordered (lt : α → α → Prop) (n : Nat) (q : Nat → α) : Prop :=
  ∀ i, 0 < i → i < n → ¬ lt (q i) (q (parent i))

/-- Only the element at `k` may be less than its parent. -/
structure UpOrdered (lt : α → α → Prop) (n k : Nat) (q : Nat → α) : Prop where
  except : ∀ i, 0 < i → i < n → i ≠ k → ¬ lt (q i) (q (parent i))
  grand : ∀ i, 0 < i → i < n → parent i = k → 0 < k → ¬ lt (q i) (q (parent k))

/-- Only the element at `k` may be greater than its children. -/
structure DownOrdered (lt : α → α → Prop) (n k : Nat) (q : Nat → α) : Prop where
  except : ∀ i, 0 < i → i < n → parent i ≠ k → ¬ lt (q i) (q (parent i))
  grand : ∀ i, 0 < i → i < n → parent i = k → 0 < k → ¬ lt (q i) (q (parent k))

theorem Ordered.mono {m : Nat} (h : Ordered lt n q) (hm : m ≤ n) : Ordered lt m q :=
  fun i hi him => h i hi (Nat.lt_of_lt_of_le him hm)

theorem UpOrdered.finish (h : UpOrdered lt n k q) (hk : 0 < k → ¬ lt (q k) (q (parent k))) : Ordered lt n q := by
  intro i hi hin
  by_cases hik : i = k
  · subst hik
    exact hk hi
  · exact h.except i hi hin hik

theorem DownOrdered.finish (h : DownOrdered lt n k q)
    (hk : ∀ i, 0 < i → i < n → parent i = k → ¬ lt (q i) (q k)) : Ordered lt n q := by
  intro i hi hin
  by_cases hik : parent i = k
  · rw [hik]
    exact hk i hi hin hik
  · exact h.except i hi hin hik

/-- A new element behind the last one. -/
theorem Ordered.push (h : Ordered lt n q) (a : α) : UpOrdered lt (n + 1) n (Function.update q n a) := by
  refine ⟨fun i hi hin hik => ?_, fun i hi hin hip hn => ?_⟩
  · have hpi := parent_lt hi
    rw [Function.update_of_ne hik, Function.update_of_ne (by omega)]
    exact h i hi (by omega)
  · rw [parent_eq_iff hi] at hip
    omega

section Order

variable [IsStrictWeakOrder α lt]

/-- Not being less is transitive. -/
theorem not_lt_trans {a b c : α} (hab : ¬ lt a b) (hbc : ¬ lt b c) : ¬ lt a c := by
  intro hac
  by_cases hba : lt b a
  · exact hbc (IsTrans.trans _ _ _ hba hac)
  by_cases hcb : lt c b
  · exact hab (IsTrans.trans _ _ _ hac hcb)
  · exact (IsStrictWeakOrder.incomp_trans a b c ⟨hab, hba⟩ ⟨hbc, hcb⟩).1 hac

theorem UpOrdered.swap (h : UpOrdered lt n k q) (hk : 0 < k) (hkn : k < n) (hlt : lt (q k) (q (parent k))) :
    UpOrdered lt n (parent k) (swap q (parent k) k) := by
  have hpk := parent_lt hk
  have hsibling {i : Nat} (hi : 0 < i) (hin : i < n) (hik : i ≠ k) (hip : parent i = parent k) :
      ¬ lt (q i) (q (parent k)) := by
    rw [← hip]
    exact h.except i hi hin hik
  refine ⟨fun i hi hin hip => ?_, fun i hi hin hip hp => ?_⟩
  · have hpi := parent_lt hi
    by_cases hik : i = k
    · rw [hik, swap_right, swap_left]
      exact asymm hlt
    rw [swap_of_ne hip hik]
    by_cases hpp : parent i = parent k
    · rw [hpp, swap_left]
      exact fun hc => hsibling hi hin hik hpp (IsTrans.trans _ _ _ hc hlt)
    by_cases hpk : parent i = k
    · rw [hpk, swap_right]
      exact h.grand i hi hin hpk hk
    · rw [swap_of_ne hpp hpk]
      exact h.except i hi hin hik
  · have hppk := parent_lt hp
    have hroot := h.except (parent k) hp (by omega) (by omega)
    have hgt := lt_of_parent hi hip
    rw [swap_of_ne (q := q) (show parent (parent k) ≠ parent k by omega) (by omega)]
    by_cases hik : i = k
    · rw [hik, swap_right]
      exact hroot
    · rw [swap_of_ne (by omega) hik]
      exact not_lt_trans (hsibling hi hin hik hip) hroot

theorem DownOrdered.swap {m : Nat} (h : DownOrdered lt n k q) (hm : 0 < m) (hmn : m < n) (hmk : parent m = k)
    (hlt : lt (q m) (q k)) (hmin : ∀ i, 0 < i → i < n → parent i = k → ¬ lt (q i) (q m)) :
    DownOrdered lt n m (swap q k m) := by
  have hkm := lt_of_parent hm hmk
  refine ⟨fun i hi hin him => ?_, fun i hi hin him _ => ?_⟩
  · have hpi := parent_lt hi
    by_cases hik : i = k
    · rw [hik] at hi hpi him ⊢
      rw [swap_left, swap_of_ne (by omega) him]
      exact h.grand m hm hmn hmk hi
    by_cases hieq : i = m
    · rw [hieq, hmk, swap_right, swap_left]
      exact asymm hlt
    rw [swap_of_ne hik hieq]
    by_cases hpk : parent i = k
    · rw [hpk, swap_left]
      exact hmin i hi hin hpk
    · rw [swap_of_ne hpk him]
      exact h.except i hi hin hpk
  · have hgt := lt_of_parent hi him
    have hchild := h.except i hi hin (by omega)
    rw [him] at hchild
    rw [hmk, swap_left, swap_of_ne (by omega) (by omega)]
    exact hchild

/-- The first element is a minimal one. -/
theorem Ordered.root (h : Ordered lt n q) (i : Nat) (hi : i < n) : ¬ lt (q i) (q 0) := by
  induction i using Nat.strongRecOn with
  | ind i ih =>
      by_cases hzero : i = 0
      · rw [hzero]
        exact irrefl (r := lt) _
      · have hp := parent_lt (Nat.pos_of_ne_zero hzero)
        exact not_lt_trans (h i (by omega) hi) (ih (parent i) hp (by omega))

/-- An element that is not less than the parent replaces the one at `k`. -/
theorem Ordered.replace_down (h : Ordered lt n q) (hk : 0 < k → k < n) {a : α} (ha : 0 < k → ¬ lt a (q (parent k))) :
    DownOrdered lt n k (Function.update q k a) := by
  refine ⟨fun i hi hin hip => ?_, fun i hi hin hip hpos => ?_⟩
  · rw [Function.update_of_ne hip]
    by_cases hik : i = k
    · rw [hik] at hi ⊢
      rw [Function.update_self]
      exact ha hi
    · rw [Function.update_of_ne hik]
      exact h i hi hin
  · have hgt := lt_of_parent hi hip
    have hp := parent_lt hpos
    have hik := h i hi hin
    rw [hip] at hik
    rw [Function.update_of_ne (by omega), Function.update_of_ne (by omega)]
    exact not_lt_trans hik (h k hpos (hk hpos))

/-- An element that is not greater than the children replaces the one at `k`. -/
theorem Ordered.replace_up (h : Ordered lt n q) (hk : k < n) {a : α}
    (ha : ∀ i, 0 < i → i < n → parent i = k → ¬ lt (q i) a) : UpOrdered lt n k (Function.update q k a) := by
  refine ⟨fun i hi hin hik => ?_, fun i hi hin hip hpos => ?_⟩
  · rw [Function.update_of_ne hik]
    by_cases hip : parent i = k
    · rw [hip, Function.update_self]
      exact ha i hi hin hip
    · rw [Function.update_of_ne hip]
      exact h i hi hin
  · have hgt := lt_of_parent hi hip
    have hp := parent_lt hpos
    have hik := h i hi hin
    rw [hip] at hik
    rw [Function.update_of_ne (by omega), Function.update_of_ne (by omega)]
    exact not_lt_trans hik (h k hpos hk)

/-- The one that is removed decides which way its replacement has to go. -/
theorem Ordered.replace (h : Ordered lt n q) (hk : k < n) (a : α) :
    (lt (q k) a → DownOrdered lt n k (Function.update q k a)) ∧
      (¬ lt (q k) a → UpOrdered lt n k (Function.update q k a)) := by
  refine ⟨fun hlt => h.replace_down (fun _ => hk) fun hpos hc => ?_, fun hnot => h.replace_up hk fun i hi hin hip => ?_⟩
  · exact h k hpos hk (IsTrans.trans _ _ _ hlt hc)
  · have hik := h i hi hin
    rw [hip] at hik
    exact not_lt_trans hik hnot

end Order

end Zngtcp2.Lib.Heap
