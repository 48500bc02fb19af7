import Mathlib.Data.List.Basic

namespace Zngtcp2.Lib.Sorted

variable {α : Type} {p q : α → Bool} {l : List α}

/-- Elements without the property have none with it behind them. -/
def Initial (p : α → Bool) (l : List α) : Prop :=
  l.Pairwise fun a b => p b = true → p a = true

theorem filter_eq_nil_of_initial {a : α} (h : Initial p (a :: l)) (ha : p a = false) : l.filter p = [] := by
  apply List.filter_eq_nil_iff.mpr
  intro b hb hpb
  rw [(List.pairwise_cons.mp h).1 b hb hpb] at ha
  cases ha

theorem takeWhile_eq_filter (h : Initial p l) : l.takeWhile p = l.filter p := by
  induction l with
  | nil => rfl
  | cons a l ih =>
      cases ha : p a with
      | true => rw [List.takeWhile_cons_of_pos ha, List.filter_cons_of_pos ha, ih (List.pairwise_cons.mp h).2]
      | false =>
          have hneg : ¬p a = true := by rw [ha]; exact Bool.false_ne_true
          rw [List.takeWhile_cons_of_neg hneg, List.filter_cons_of_neg hneg, filter_eq_nil_of_initial h ha]

theorem dropWhile_eq_filter (h : Initial p l) : l.dropWhile p = l.filter (!p ·) := by
  induction l with
  | nil => rfl
  | cons a l ih =>
      cases ha : p a with
      | true =>
          rw [List.dropWhile_cons_of_pos ha, ih (List.pairwise_cons.mp h).2]
          simp only [List.filter_cons, ha, Bool.not_true, Bool.false_eq_true, if_false]
      | false =>
          have hneg : ¬p a = true := by rw [ha]; exact Bool.false_ne_true
          rw [List.dropWhile_cons_of_neg hneg]
          symm
          apply List.filter_eq_self.mpr
          intro b hb
          cases hpb : p b with
          | false => rfl
          | true =>
              have hfilter : b ∈ (a :: l).filter p := List.mem_filter.mpr ⟨hb, hpb⟩
              rw [List.filter_cons_of_neg hneg, filter_eq_nil_of_initial h ha] at hfilter
              exact absurd hfilter List.not_mem_nil

/-- The elements of the second kind all stand behind those of the first kind. -/
theorem filter_or (h : l.Pairwise fun a b => q a = true → p b = false)
    (hdisjoint : ∀ a ∈ l, p a = true → q a = false) :
    l.filter (fun a => p a || q a) = l.filter p ++ l.filter q := by
  induction l with
  | nil => rfl
  | cons a l ih =>
      obtain ⟨hbehind, htail⟩ := List.pairwise_cons.mp h
      obtain ⟨ha, hl⟩ := List.forall_mem_cons.mp hdisjoint
      replace ih := ih htail hl
      cases hp : p a with
      | true =>
          simp only [List.filter_cons, hp, ha hp, Bool.true_or, if_true, Bool.false_eq_true, if_false, ih,
            List.cons_append]
      | false =>
          cases hq : q a with
          | false => simp only [List.filter_cons, hp, hq, Bool.or_self, Bool.false_eq_true, if_false, ih]
          | true =>
              have hnone : l.filter p = [] := by
                apply List.filter_eq_nil_iff.mpr
                intro b hb
                rw [hbehind b hb hq]
                exact Bool.false_ne_true
              rw [hnone, List.nil_append] at ih
              simp only [List.filter_cons, hp, hq, Bool.or_true, if_true, Bool.false_eq_true, if_false, ih, hnone,
                List.nil_append]

end Zngtcp2.Lib.Sorted
