import Mathlib.Data.List.Basic
import Zngtcp2.Ksl.Model

namespace Zngtcp2.SkipList

/-- The blocks are linked in this order, behind the block `p` and in front of the block `q`. -/
def Linked (l : Links) : Option Nat → List Nat → Option Nat → Prop
  | _, [], _ => True
  | p, a :: ids, q => l.prev a = p ∧ l.next a = ids.head?.or q ∧ Linked l (some a) ids q

section

variable {l l' : Links} {p q : Option Nat} {xs ys : List Nat} {a r : Nat}

theorem linked_append :
    Linked l p (xs ++ ys) q ↔ Linked l p xs (ys.head?.or q) ∧ Linked l (xs.getLast?.or p) ys q := by
  induction xs generalizing p with
  | nil => simp [Linked]
  | cons a xs ih =>
      have hlast : (a :: xs).getLast?.or p = xs.getLast?.or (some a) := by
        cases xs with
        | nil => rfl
        | cons b xs => simp [List.getLast?_cons]
      rw [List.cons_append, Linked, Linked, ih, List.head?_append, Option.or_assoc, hlast, and_assoc, and_assoc]

theorem Linked.frame (h : Linked l p xs q) (hnext : ∀ a ∈ xs, l'.next a = l.next a) (hprev : ∀ a ∈ xs, l'.prev a = l.prev a) :
    Linked l' p xs q := by
  induction xs generalizing p with
  | nil => trivial
  | cons a xs ih =>
      rw [Linked, hnext a List.mem_cons_self, hprev a List.mem_cons_self]
      exact ⟨h.1, h.2.1, ih h.2.2 (fun b hb => hnext b (List.mem_cons_of_mem a hb)) fun b hb => hprev b (List.mem_cons_of_mem a hb)⟩

/-- The blocks `mid` between others are replaced by `mid'`: behind them, only the first block changes
its left neighbour. -/
theorem Linked.splice {mid mid' : List Nat} (h : Linked l none (xs ++ mid ++ ys) none) (hnd : (xs ++ mid ++ ys).Nodup)
    (hhead : mid'.head? = mid.head?) (hne : mid ≠ []) (hmid : Linked l' xs.getLast? mid' ys.head?)
    (hnext : ∀ a ∈ xs ++ ys, l'.next a = l.next a)
    (hprev : ∀ a ∈ xs ++ ys, l'.prev a = if ys.head? = some a then mid'.getLast? else l.prev a) :
    Linked l' none (xs ++ mid' ++ ys) none := by
  obtain ⟨b, hb⟩ : ∃ b, mid.head? = some b := by
    cases mid with
    | nil => exact absurd rfl hne
    | cons b mid => exact ⟨b, rfl⟩
  obtain ⟨c, hc⟩ : ∃ c, mid'.getLast? = some c := by
    cases mid' with
    | nil => simp [hb] at hhead
    | cons b mid => exact ⟨_, List.getLast?_eq_getLast_of_ne_nil (List.cons_ne_nil b mid)⟩
  rw [List.append_assoc, linked_append, linked_append] at h
  obtain ⟨hxs, -, hys⟩ := h
  rw [List.append_assoc, List.nodup_append] at hnd
  obtain ⟨-, hnd', hdisj⟩ := hnd
  have hndys := (List.nodup_append.mp hnd').2.1
  rw [List.append_assoc, linked_append, linked_append]
  refine ⟨?_, ?_, ?_⟩
  · have hq : (mid' ++ ys).head?.or none = (mid ++ ys).head?.or none := by
      rw [List.head?_append, List.head?_append, hhead]
    rw [hq]
    refine hxs.frame (fun a ha => hnext a (List.mem_append_left ys ha)) fun a ha => ?_
    rw [hprev a (List.mem_append_left ys ha), if_neg]
    intro hh
    exact hdisj a ha a (List.mem_append_right mid (List.mem_of_head? hh)) rfl
  · rwa [Option.or_none, Option.or_none]
  · rw [hc, Option.some_or]
    cases ys with
    | nil => trivial
    | cons d ys =>
        refine ⟨?_, ?_, ?_⟩
        · rw [hprev d (List.mem_append_right xs List.mem_cons_self), List.head?_cons, if_pos rfl, hc]
        · rw [hnext d (List.mem_append_right xs List.mem_cons_self)]
          exact hys.2.1
        · refine hys.2.2.frame (fun a ha => hnext a (List.mem_append_right xs (List.mem_cons_of_mem d ha))) fun a ha => ?_
          rw [hprev a (List.mem_append_right xs (List.mem_cons_of_mem d ha)), if_neg]
          intro hh
          cases hh
          exact (List.nodup_cons.mp hndys).1 ha

end

/-- The leaves with these addresses are the leaves from left to right. -/
structure Chained (m : Mem) (ids : List Nat) : Prop where
  nodup : ids.Nodup
  fresh : ∀ a ∈ ids, a < m.fresh
  linked : Linked (m.links 0) none ids none
  back : m.back = ids.getLast?

/-- The operation replaces the leaves `ids` by `ids'` among the leaves, whatever else there is, and
the first one stays. -/
structure Relinks (m : Mem) (ids : List Nat) (m' : Mem) (ids' : List Nat) : Prop where
  head : ids'.head? = ids.head?
  chained : ∀ xs ys, Chained m (xs ++ ids ++ ys) → Chained m' (xs ++ ids' ++ ys)

namespace Relinks

variable {m m₁ m₂ : Mem} {ids ids₁ ids₂ xs ys : List Nat}

theorem refl (m : Mem) (ids : List Nat) : Relinks m ids m ids :=
  ⟨rfl, fun _ _ h => h⟩

theorem trans (h₁ : Relinks m ids m₁ ids₁) (h₂ : Relinks m₁ ids₁ m₂ ids₂) : Relinks m ids m₂ ids₂ :=
  ⟨h₂.head.trans h₁.head, fun xs ys h => h₂.chained xs ys (h₁.chained xs ys h)⟩

/-- There may be further leaves around. -/
theorem among (h : Relinks m ids m₁ ids₁) (xs ys : List Nat) : Relinks m (xs ++ ids ++ ys) m₁ (xs ++ ids₁ ++ ys) := by
  constructor
  · simp only [List.head?_append, h.head]
  · intro xs' ys' hc
    have hc' : Chained m ((xs' ++ xs) ++ ids ++ (ys ++ ys')) := by
      simpa only [List.append_assoc] using hc
    simpa only [List.append_assoc] using h.chained _ _ hc'

/-- What is not about the leaves. -/
theorem of_eq (hlinks : m₁.links 0 = m.links 0) (hback : m₁.back = m.back) (hfresh : m.fresh ≤ m₁.fresh) (ids : List Nat) :
    Relinks m ids m₁ ids :=
  ⟨rfl, fun _ _ h => ⟨h.nodup, fun a ha => Nat.lt_of_lt_of_le (h.fresh a ha) hfresh, hlinks ▸ h.linked, hback ▸ h.back⟩⟩

end Relinks

theorem perm_pair (xs ys : List Nat) (b r : Nat) : (xs ++ [b, r] ++ ys).Perm (r :: (xs ++ [b] ++ ys)) := by
  have hperm : ((xs ++ [b]) ++ r :: ys).Perm (r :: ((xs ++ [b]) ++ ys)) := List.perm_middle
  simpa only [List.append_assoc, List.cons_append, List.nil_append] using hperm

namespace Mem

variable (m : Mem)

theorem new_cases :
    (m.alloc.head? = some false ∧ m.new = ({ m with alloc := m.alloc.tail }, none)) ∨
      (m.alloc.head? ≠ some false ∧ m.new = ({ m with fresh := m.fresh + 1, alloc := m.alloc.tail }, some m.fresh)) := by
  rw [new]
  split
  next alloc h =>
      left
      simp [h]
  next _ h =>
      right
      refine ⟨fun hhead => ?_, rfl⟩
      cases halloc : m.alloc with
      | nil => simp [halloc] at hhead
      | cons b alloc =>
          rw [halloc, List.head?_cons, Option.some.injEq] at hhead
          exact h alloc (by rw [halloc, hhead])

variable {m}

/-- A new leaf behind the leaf `b`. -/
theorem linkAfter_relinks {m' : Mem} {b : Nat} (hlinks : m'.links = m.links) (hback : m'.back = m.back)
    (hfresh : m'.fresh = m.fresh + 1) : Relinks m [b] (m'.linkAfter 0 b m.fresh) [b, m.fresh] := by
  refine ⟨rfl, fun xs ys hc => ?_⟩
  obtain ⟨hnd, hlt, hl, hb⟩ := hc
  have hnew : ∀ a ∈ xs ++ [b] ++ ys, a ≠ m.fresh := fun a ha => Nat.ne_of_lt (hlt a ha)
  have hbm : b ≠ m.fresh := hnew b (by simp)
  have hxy : ∀ a ∈ xs ++ ys, a ≠ b ∧ a ≠ m.fresh := by
    intro a ha
    have hmem : a ∈ xs ++ [b] ++ ys := by
      rcases List.mem_append.mp ha with ha | ha <;> simp [ha]
    refine ⟨fun hab => ?_, hnew a hmem⟩
    have hperm : (xs ++ [b] ++ ys).Perm (b :: (xs ++ ys)) := by
      simp
    exact (List.nodup_cons.mp (hperm.nodup_iff.mp hnd)).1 (hab ▸ ha)
  have hmid := hl
  rw [List.append_assoc, linked_append, linked_append] at hmid
  obtain ⟨-, ⟨hprev, hnext, -⟩, -⟩ := hmid
  simp only [Option.or_none, List.head?_nil, Option.none_or] at hprev hnext
  constructor
  · exact (perm_pair xs ys b m.fresh).nodup_iff.mpr (List.nodup_cons.mpr ⟨fun h => hnew _ h rfl, hnd⟩)
  · intro a ha
    change a < m'.fresh
    have hor : a = m.fresh ∨ a ∈ xs ++ [b] ++ ys := by
      simp only [List.mem_append, List.mem_cons, List.not_mem_nil, or_false] at ha ⊢
      tauto
    rcases hor with h | h
    · omega
    · have := hlt a h
      omega
  · refine hl.splice hnd rfl (List.cons_ne_nil b []) ⟨?_, ?_, ?_, ?_, trivial⟩ ?_ ?_
    · cases hys : ys.head? with
      | none => simpa [linkAfter, hlinks, hnext, hys, Function.update_apply, hbm] using hprev
      | some c =>
          have hbc : b ≠ c := (hxy c (List.mem_append_right xs (List.mem_of_head? hys))).1.symm
          simpa [linkAfter, hlinks, hnext, hys, Function.update_apply, hbm, hbc] using hprev
    · simp [linkAfter, hlinks]
    · simp [linkAfter, hlinks]
    · simp [linkAfter, hlinks, hnext, hbm.symm]
    · intro a ha
      simp [linkAfter, hlinks, (hxy a ha).1, (hxy a ha).2]
    · intro a ha
      cases hys : ys.head? with
      | none => simp [linkAfter, hlinks, hnext, hys, (hxy a ha).2]
      | some c => simp [linkAfter, hlinks, hnext, hys, (hxy a ha).2, Function.update_apply, eq_comm]
  · change (if (m'.links 0).next b = none ∧ 0 = 0 ∧ m'.back = some b then some m.fresh else m'.back) = _
    rw [hlinks, hnext, hback, hb]
    cases ys with
    | nil => simp
    | cons c ys => simp [List.getLast?_cons]

/-- The leaf `r` behind the leaf `b` is taken out. -/
theorem unlinkAfter_relinks (m : Mem) (b r : Nat) : Relinks m [b, r] (m.unlinkAfter 0 b r) [b] := by
  refine ⟨rfl, fun xs ys hc => ?_⟩
  obtain ⟨hnd, hlt, hl, hb⟩ := hc
  have hnd' : (r :: b :: (xs ++ ys)).Nodup := by
    have hperm : (xs ++ [b] ++ ys).Perm (b :: (xs ++ ys)) := by
      simp
    exact ((perm_pair xs ys b r).trans (hperm.cons r)).nodup_iff.mp hnd
  have hxy : ∀ a ∈ xs ++ ys, a ≠ b := by
    intro a ha hab
    exact (List.nodup_cons.mp (List.nodup_cons.mp hnd').2).1 (hab ▸ ha)
  have hbr : b ≠ r := fun h => (List.nodup_cons.mp hnd').1 (h ▸ List.mem_cons_self)
  have hmid := hl
  rw [List.append_assoc, linked_append, linked_append] at hmid
  obtain ⟨-, ⟨hprev, -, -, hnext, -⟩, -⟩ := hmid
  simp only [Option.or_none, List.head?_nil, Option.none_or] at hprev hnext
  constructor
  · have hperm : (xs ++ [b] ++ ys).Perm (b :: (xs ++ ys)) := by
      simp
    exact hperm.nodup_iff.mpr (List.nodup_cons.mp hnd').2
  · intro a ha
    apply hlt a
    simp only [List.mem_append, List.mem_cons, List.not_mem_nil, or_false] at ha ⊢
    tauto
  · refine hl.splice hnd rfl (List.cons_ne_nil b [r]) ⟨?_, ?_, trivial⟩ ?_ ?_
    · cases hys : ys.head? with
      | none => simpa [unlinkAfter, hnext, hys] using hprev
      | some c =>
          have hbc : b ≠ c := (hxy c (List.mem_append_right xs (List.mem_of_head? hys))).symm
          simpa [unlinkAfter, hnext, hys, hbc] using hprev
    · simp [unlinkAfter, hnext]
    · intro a ha
      simp [unlinkAfter, hxy a ha]
    · intro a ha
      cases hys : ys.head? with
      | none => simp [unlinkAfter, hnext, hys]
      | some c => simp [unlinkAfter, hnext, hys, Function.update_apply, eq_comm]
  · change (if (m.links 0).next r = none ∧ 0 = 0 ∧ m.back = some r then some b else m.back) = _
    rw [hnext, hb]
    cases ys with
    | nil => simp
    | cons c ys => simp [List.getLast?_cons]

end Mem

end Zngtcp2.SkipList
