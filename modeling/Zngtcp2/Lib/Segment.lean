import Mathlib.Tactic.Ring
import Mathlib.Data.List.Basic
import Mathlib.Order.Interval.Finset.Nat

namespace Zngtcp2.Lib.Segment

variable {α : Type}

/-- The value a run of consecutive cells starting at `s` gives to the address `o`. -/
def segAt (s : Nat) (xs : List α) (o : Nat) : Option α :=
  if s ≤ o then xs[o - s]? else none

/-- Two partial stores laid over each other: what the first one holds wins. -/
def overlay (old new : Nat → Option α) (o : Nat) : Option α :=
  (old o).or (new o)

def restrict (lo : Nat) (m : Nat → Option α) (o : Nat) : Option α :=
  if lo ≤ o then m o else none

@[simp]
theorem segAt_nil (s o : Nat) : segAt s ([] : List α) o = none := by
  simp [segAt]

theorem segAt_zero (xs : List α) (o : Nat) : segAt 0 xs o = xs[o]? := by
  simp [segAt]

theorem segAt_isSome {s : Nat} {xs : List α} {o : Nat} :
    (segAt s xs o).isSome ↔ s ≤ o ∧ o < s + xs.length := by
  unfold segAt
  split
  · rw [Option.isSome_iff_ne_none, Ne, List.getElem?_eq_none_iff]
    omega
  · simp
    omega

theorem segAt_eq_none {s : Nat} {xs : List α} {o : Nat} :
    segAt s xs o = none ↔ o < s ∨ s + xs.length ≤ o := by
  rw [← Option.not_isSome_iff_eq_none, segAt_isSome]
  omega

theorem segAt_drop (s n : Nat) (xs : List α) (o : Nat) :
    segAt (s + n) (xs.drop n) o = if s + n ≤ o then segAt s xs o else none := by
  unfold segAt
  split
  · rename_i h
    rw [List.getElem?_drop, if_pos (by omega)]
    congr 1
    omega
  · rfl

theorem segAt_take (s n : Nat) (xs : List α) (o : Nat) :
    segAt s (xs.take n) o = if o < s + n then segAt s xs o else none := by
  unfold segAt
  by_cases hs : s ≤ o
  · simp only [hs, if_true, List.getElem?_take]
    congr 1
    exact propext (by omega)
  · simp [hs]

/-- The cells of a run, each with its address. -/
def cells : Nat → List α → List (Nat × α)
  | _, [] => []
  | s, x :: xs => (s, x) :: cells (s + 1) xs

@[simp]
theorem cells_nil (s : Nat) : cells s ([] : List α) = [] :=
  rfl

@[simp]
theorem cells_append (s : Nat) (xs ys : List α) : cells s (xs ++ ys) = cells s xs ++ cells (s + xs.length) ys := by
  induction xs generalizing s with
  | nil => rfl
  | cons x xs ih =>
      rw [List.cons_append, cells, ih, cells, List.cons_append, List.length_cons]
      rw [Nat.add_right_comm, Nat.add_assoc]

@[simp]
theorem cells_length (s : Nat) (xs : List α) : (cells s xs).length = xs.length := by
  induction xs generalizing s with
  | nil => rfl
  | cons x xs ih => rw [cells, List.length_cons, ih, List.length_cons]

theorem mem_cells {s : Nat} {xs : List α} {c : Nat × α} (h : c ∈ cells s xs) : s ≤ c.1 ∧ c.1 < s + xs.length := by
  induction xs generalizing s with
  | nil => cases h
  | cons x xs ih =>
      rw [List.length_cons]
      rcases List.mem_cons.mp h with rfl | h
      · simp only
        omega
      · have := ih h
        omega

theorem exists_mem_cells {s : Nat} {xs : List α} {o : Nat} (hs : s ≤ o) (ho : o < s + xs.length) :
    ∃ x, (o, x) ∈ cells s xs := by
  induction xs generalizing s with
  | nil => exact absurd ho (Nat.not_lt.mpr hs)
  | cons x xs ih =>
      rcases Nat.eq_or_lt_of_le hs with rfl | hlt
      · exact ⟨x, List.mem_cons_self⟩
      · obtain ⟨y, hy⟩ := ih hlt (by rw [List.length_cons] at ho; omega)
        exact ⟨y, List.mem_cons_of_mem _ hy⟩

theorem cells_ascending (s : Nat) (xs : List α) : (cells s xs).Pairwise (fun a b => a.1 < b.1) := by
  induction xs generalizing s with
  | nil => exact List.Pairwise.nil
  | cons x xs ih => exact List.pairwise_cons.mpr ⟨fun c hc => (mem_cells hc).1, ih (s + 1)⟩

/-- The cells are what the run gives to the addresses. -/
theorem mem_cells_iff {s o : Nat} {xs : List α} {x : α} : (o, x) ∈ cells s xs ↔ segAt s xs o = some x := by
  induction xs generalizing s with
  | nil => simp
  | cons y ys ih =>
      rw [cells, List.mem_cons, ih, segAt, segAt]
      obtain hlt | rfl | hgt := Nat.lt_trichotomy o s
      · rw [if_neg (by omega), if_neg (by omega)]
        simp
        omega
      · rw [if_neg (by omega), if_pos (Nat.le_refl o), Nat.sub_self, List.getElem?_cons_zero]
        simp [eq_comm]
      · rw [if_pos (by omega), if_pos (by omega), show o - s = o - (s + 1) + 1 by omega, List.getElem?_cons_succ]
        simp
        omega

/-- The run `xs` stands at the address `s` of the run `S` that starts at 0. -/
def Slice (S : List α) (s : Nat) (xs : List α) : Prop :=
  ∃ pre post, S = pre ++ xs ++ post ∧ pre.length = s

theorem Slice.le {S xs : List α} {s : Nat} (h : Slice S s xs) : s + xs.length ≤ S.length := by
  obtain ⟨pre, post, rfl, rfl⟩ := h
  simp only [List.length_append]
  omega

theorem Slice.left {S xs ys : List α} {s : Nat} (h : Slice S s (xs ++ ys)) : Slice S s xs := by
  obtain ⟨pre, post, rfl, rfl⟩ := h
  exact ⟨pre, ys ++ post, by simp, rfl⟩

theorem Slice.right {S xs ys : List α} {s : Nat} (h : Slice S s (xs ++ ys)) : Slice S (s + xs.length) ys := by
  obtain ⟨pre, post, rfl, rfl⟩ := h
  exact ⟨pre ++ xs, post, by simp, by simp⟩

theorem Slice.drop {S xs : List α} {s : Nat} (h : Slice S s xs) {n : Nat} (hn : n ≤ xs.length) :
    Slice S (s + n) (xs.drop n) := by
  rw [← List.take_append_drop n xs] at h
  have := h.right
  rwa [List.length_take, Nat.min_eq_left hn] at this

theorem Slice.append {S xs ys : List α} {s : Nat} (hx : Slice S s xs) (hy : Slice S (s + xs.length) ys) :
    Slice S s (xs ++ ys) := by
  obtain ⟨pre, post, hS, hlen⟩ := hx
  obtain ⟨pre', post', hS', hlen'⟩ := hy
  have hpre : pre' = pre ++ xs ∧ ys ++ post' = post := by
    rw [hS', List.append_assoc] at hS
    exact List.append_inj hS (by rw [hlen', List.length_append, hlen])
  exact ⟨pre, post', by rw [hS', hpre.1]; simp only [List.append_assoc], hlen⟩

theorem Slice.extend {S xs : List α} {s : Nat} (h : Slice S s xs) (T : List α) : Slice (S ++ T) s xs := by
  obtain ⟨pre, post, rfl, rfl⟩ := h
  exact ⟨pre, post ++ T, by simp, rfl⟩

theorem slice_end (S T : List α) : Slice (S ++ T) S.length T :=
  ⟨S, [], by simp, rfl⟩

theorem Slice.cells_subset {S xs : List α} {s : Nat} (h : Slice S s xs) : ∀ c ∈ cells s xs, c ∈ cells 0 S := by
  obtain ⟨pre, post, rfl, rfl⟩ := h
  intro c hc
  rw [cells_append, cells_append, Nat.zero_add]
  exact List.mem_append_left _ (List.mem_append_right _ hc)

def Ascending (cs : List (Nat × α)) : Prop :=
  cs.Pairwise (fun a b => a.1 < b.1)

def cellsFrom (n : Nat) (cs : List (Nat × α)) : List (Nat × α) :=
  cs.filter (fun c => n ≤ c.1)

/-- The first of the cells from `n` on is the one at `n`, if there is one. -/
theorem cellsFrom_succ {cs : List (Nat × α)} (h : Ascending cs) {n : Nat} {b : α} (hmem : (n, b) ∈ cs) :
    cellsFrom n cs = (n, b) :: cellsFrom (n + 1) cs := by
  induction cs with
  | nil => cases hmem
  | cons c cs ih =>
      obtain ⟨hc, hcs⟩ := List.pairwise_cons.mp h
      simp only [cellsFrom, List.filter_cons]
      rcases List.mem_cons.mp hmem with rfl | hmem
      · rw [if_pos (by simp), if_neg (by simp)]
        congr 1
        refine List.filter_congr (fun d hd => ?_)
        have := hc d hd
        simp only at this
        simp only [decide_eq_decide]
        omega
      · have hlt := hc _ hmem
        simp only at hlt
        rw [if_neg (by simp only [decide_eq_true_eq]; omega), if_neg (by simp only [decide_eq_true_eq]; omega)]
        exact ih hcs hmem

/-- Dropping as many cells as there are addresses between `a` and `b`. -/
theorem cellsFrom_drop {cs : List (Nat × α)} (h : Ascending cs) {a b : Nat} (hle : a ≤ b)
    (hall : ∀ x, a ≤ x → x < b → ∃ y, (x, y) ∈ cs) :
    b - a ≤ (cellsFrom a cs).length ∧ (cellsFrom a cs).drop (b - a) = cellsFrom b cs := by
  obtain ⟨d, rfl⟩ := Nat.exists_eq_add_of_le hle
  clear hle
  rw [Nat.add_sub_cancel_left]
  induction d generalizing a with
  | zero => exact ⟨Nat.zero_le _, rfl⟩
  | succ d ih =>
      obtain ⟨y, hy⟩ := hall a (Nat.le_refl _) (by omega)
      obtain ⟨hlen, hdrop⟩ := ih (a := a + 1) (fun x hx hx' => hall x (by omega) (by omega))
      rw [cellsFrom_succ h hy, List.length_cons, List.drop_succ_cons]
      refine ⟨Nat.succ_le_succ hlen, ?_⟩
      rw [hdrop, show a + 1 + d = a + (d + 1) by omega]

end Zngtcp2.Lib.Segment
