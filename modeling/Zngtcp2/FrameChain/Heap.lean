import Zngtcp2.FrameChain.Model
import Zngtcp2.Lib.Binder

namespace Zngtcp2.FrameChain

open Lib.Binder (Item Linked)

def Frc.item (f : Frc) : Item Nat :=
  ⟨f.id, f.binder⟩

def Frc.pointsTo (b : Nat) (f : Frc) : Bool :=
  f.binder = some b

/-- The reference count of a binder, which is 0 when it has been freed. -/
def Heap.refcount (heap : Heap) (b : Nat) : Nat :=
  (heap.cell b).elim 0 Binder.refcount

section Cells

variable (heap : Heap)

theorem Heap.set_self (b : Nat) (x : Option Binder) : (heap.set b x).cell b = x := by
  change Function.update heap.cell b x b = x
  rw [Function.update_self]

theorem Heap.set_of_ne {b b' : Nat} (h : b' ≠ b) (x : Option Binder) : (heap.set b x).cell b' = heap.cell b' := by
  change Function.update heap.cell b x b' = heap.cell b'
  rw [Function.update_of_ne h]

theorem Heap.refcount_set (b : Nat) (x : Option Binder) (b' : Nat) :
    (heap.set b x).refcount b' = if b' = b then x.elim 0 Binder.refcount else heap.refcount b' := by
  rw [Heap.refcount, Heap.refcount]
  by_cases h : b' = b
  · subst h
    rw [heap.set_self, if_pos rfl]
  · rw [heap.set_of_ne h, if_neg h]

end Cells

theorem pointsTo_iff {f : Frc} {b : Nat} : f.pointsTo b = true ↔ f.binder = some b :=
  decide_eq_true_iff

/-- Every binder counts the frames that point to it, and lives as long as there is one. -/
structure Counted (heap : Heap) (frames : List Frc) : Prop where
  refcount : ∀ b, heap.refcount b = frames.countP (Frc.pointsTo b)
  pos : ∀ b x, heap.cell b = some x → x.refcount ≠ 0
  lt : ∀ b x, heap.cell b = some x → b < heap.next

namespace Counted

variable {heap : Heap} {frames frames' : List Frc}

theorem perm (h : Counted heap frames) (hp : frames'.Perm frames) : Counted heap frames' :=
  ⟨fun b => (h.refcount b).trans (hp.countP_eq _).symm, h.pos, h.lt⟩

theorem cell_eq_none_iff (h : Counted heap frames) (b : Nat) :
    heap.cell b = none ↔ frames.countP (Frc.pointsTo b) = 0 := by
  have hcount := h.refcount b
  rw [Heap.refcount] at hcount
  rw [← hcount]
  cases hcell : heap.cell b with
  | none => exact ⟨fun _ => rfl, fun _ => rfl⟩
  | some x => exact ⟨fun hnone => absurd hnone (Option.some_ne_none x), fun hzero => absurd hzero (h.pos b x hcell)⟩

/-- No frame points to a freed binder. -/
theorem exists_cell (h : Counted heap frames) {f : Frc} (hf : f ∈ frames) {b : Nat} (hb : f.binder = some b) :
    ∃ x, heap.cell b = some x := by
  rw [← Option.ne_none_iff_exists']
  intro hnone
  have hzero := (h.cell_eq_none_iff b).mp hnone
  have hpos : 0 < frames.countP (Frc.pointsTo b) := List.countP_pos_iff.mpr ⟨f, hf, pointsTo_iff.mpr hb⟩
  exact Nat.lt_irrefl 0 (hzero ▸ hpos)

/-- A frame is deleted. -/
theorem del {f : Frc} (h : Counted heap (f :: frames)) :
    ∃ heap', heap.del f = .ok heap' ∧ Counted heap' frames ∧ heap'.next = heap.next ∧
      ∀ b x', heap'.cell b = some x' → ∃ x, heap.cell b = some x ∧ x'.acked = x.acked := by
  cases hb : f.binder with
  | none =>
      refine ⟨heap, by rw [Heap.del, hb], ⟨fun b => ?_, h.pos, h.lt⟩, rfl, fun b x hx => ⟨x, hx, rfl⟩⟩
      rw [h.refcount b, List.countP_cons_of_neg]
      rw [pointsTo_iff, hb]
      exact (Option.some_ne_none b).symm
  | some i =>
      obtain ⟨x, hx⟩ := h.exists_cell List.mem_cons_self hb
      have hcount := h.refcount i
      rw [Heap.refcount, hx, Option.elim_some, List.countP_cons_of_pos (pointsTo_iff.mpr hb)] at hcount
      refine ⟨heap.set i (if x.refcount = 1 then none else some { x with refcount := x.refcount - 1 }),
        by rw [Heap.del, hb]; dsimp only; rw [hx], ⟨fun b => ?_, fun b x' hx' => ?_, fun b x' hx' => ?_⟩,
        rfl, fun b x' hx' => ?_⟩
      · rw [heap.refcount_set]
        by_cases hbi : b = i
        · subst hbi
          rw [if_pos rfl]
          by_cases hone : x.refcount = 1
          · rw [if_pos hone, Option.elim_none]
            omega
          · rw [if_neg hone, Option.elim_some]
            exact Nat.sub_eq_of_eq_add hcount
        · rw [if_neg hbi, h.refcount b, List.countP_cons_of_neg]
          rw [pointsTo_iff, hb, Option.some.injEq]
          exact Ne.symm hbi
      · by_cases hbi : b = i
        · subst hbi
          rw [heap.set_self] at hx'
          by_cases hone : x.refcount = 1
          · rw [if_pos hone] at hx'
            cases hx'
          · rw [if_neg hone, Option.some.injEq] at hx'
            subst hx'
            have hpos := h.pos b x hx
            exact fun hzero => hone (by dsimp only at hzero; omega)
        · rw [heap.set_of_ne hbi] at hx'
          exact h.pos b x' hx'
      · by_cases hbi : b = i
        · subst hbi
          exact h.lt b x hx
        · rw [heap.set_of_ne hbi] at hx'
          exact h.lt b x' hx'
      · by_cases hbi : b = i
        · subst hbi
          rw [heap.set_self] at hx'
          by_cases hone : x.refcount = 1
          · rw [if_pos hone] at hx'
            cases hx'
          · rw [if_neg hone, Option.some.injEq] at hx'
            subst hx'
            exact ⟨x, hx, rfl⟩
        · rw [heap.set_of_ne hbi] at hx'
          exact ⟨x', hx', rfl⟩

theorem listDel {fs : List Frc} (h : Counted heap (fs ++ frames)) :
    ∃ heap', Heap.listDel fs heap = .ok heap' ∧ Counted heap' frames ∧ heap'.next = heap.next ∧
      ∀ b x', heap'.cell b = some x' → ∃ x, heap.cell b = some x ∧ x'.acked = x.acked := by
  induction fs generalizing heap with
  | nil => exact ⟨heap, rfl, h, rfl, fun b x hx => ⟨x, hx, rfl⟩⟩
  | cons f fs ih =>
      obtain ⟨heap₁, hdel, h₁, hnext₁, hflags₁⟩ := h.del
      obtain ⟨heap₂, hdels, h₂, hnext₂, hflags₂⟩ := ih h₁
      refine ⟨heap₂, ?_, h₂, hnext₂.trans hnext₁, fun b x₂ hx₂ => ?_⟩
      · rw [Heap.listDel, hdel]
        exact hdels
      · obtain ⟨x₁, hx₁, hacked₂⟩ := hflags₂ b x₂ hx₂
        obtain ⟨x, hx, hacked₁⟩ := hflags₁ b x₁ hx₁
        exact ⟨x, hx, hacked₂.trans hacked₁⟩

/-- A frame that did not point to a binder points to the binder `i` now. -/
theorem addRef {i : Nat} {x : Binder} (h : Counted heap frames) (hx : heap.cell i = some x) {f : Frc}
    (hf : f.binder = some i) :
    heap.addRef i = .ok (heap.set i (some { x with refcount := x.refcount + 1 })) ∧
      Counted (heap.set i (some { x with refcount := x.refcount + 1 })) (f :: frames) := by
  refine ⟨by rw [Heap.addRef, hx], fun b => ?_, fun b x' hx' => ?_, fun b x' hx' => ?_⟩
  · rw [heap.refcount_set]
    by_cases hbi : b = i
    · subst hbi
      have hcount := h.refcount b
      rw [Heap.refcount, hx, Option.elim_some] at hcount
      rw [if_pos rfl, List.countP_cons_of_pos (pointsTo_iff.mpr hf), ← hcount, Option.elim_some]
    · rw [if_neg hbi, h.refcount b, List.countP_cons_of_neg]
      rw [pointsTo_iff, hf, Option.some.injEq]
      exact Ne.symm hbi
  · by_cases hbi : b = i
    · subst hbi
      rw [heap.set_self, Option.some.injEq] at hx'
      subst hx'
      exact Nat.succ_ne_zero x.refcount
    · rw [heap.set_of_ne hbi] at hx'
      exact h.pos b x' hx'
  · by_cases hbi : b = i
    · subst hbi
      exact h.lt b x hx
    · rw [heap.set_of_ne hbi] at hx'
      exact h.lt b x' hx'

/-- A frame without a binder gets a new one. -/
theorem newBinder {f f' : Frc} (h : Counted heap (f :: frames)) (hf : f.binder = none)
    (hf' : f'.binder = some heap.next) : Counted heap.newBinder (f' :: frames) := by
  have hcell : ∀ b, heap.newBinder.cell b = if b = heap.next then some { refcount := 1 } else heap.cell b :=
    fun b => Function.update_apply heap.cell heap.next _ b
  have hunused : heap.cell heap.next = none := by
    cases hx : heap.cell heap.next with
    | none => rfl
    | some x => exact absurd (h.lt _ x hx) (Nat.lt_irrefl _)
  have hrest : ∀ b, (f :: frames).countP (Frc.pointsTo b) = frames.countP (Frc.pointsTo b) := by
    intro b
    rw [List.countP_cons_of_neg]
    rw [pointsTo_iff, hf]
    exact (Option.some_ne_none b).symm
  refine ⟨fun b => ?_, fun b x hx => ?_, fun b x hx => ?_⟩
  · rw [Heap.refcount, hcell]
    by_cases hb : b = heap.next
    · subst hb
      have hzero := (h.cell_eq_none_iff heap.next).mp hunused
      rw [hrest] at hzero
      rw [if_pos rfl, List.countP_cons_of_pos (pointsTo_iff.mpr hf'), hzero]
      rfl
    · rw [if_neg hb, ← Heap.refcount, h.refcount b, hrest, List.countP_cons_of_neg]
      rw [pointsTo_iff, hf', Option.some.injEq]
      exact Ne.symm hb
  · rw [hcell] at hx
    by_cases hb : b = heap.next
    · rw [if_pos hb, Option.some.injEq] at hx
      subst hx
      exact Nat.one_ne_zero
    · rw [if_neg hb] at hx
      exact h.pos b x hx
  · rw [hcell] at hx
    by_cases hb : b = heap.next
    · subst hb
      exact Nat.lt_succ_self heap.next
    · rw [if_neg hb] at hx
      exact Nat.lt_succ_of_lt (h.lt b x hx)

/-- The flag of a frame's binder is set. -/
theorem setAcked (h : Counted heap frames) (f : Frc) : Counted (heap.setAcked f) frames := by
  cases hb : f.binder with
  | none =>
      rw [Heap.setAcked, hb]
      exact h
  | some i =>
      have hset : ∀ b, (heap.setAcked f).refcount b = heap.refcount b ∧
          ∀ x, (heap.setAcked f).cell b = some x → ∃ x', heap.cell b = some x' ∧ x.refcount = x'.refcount := by
        intro b
        rw [Heap.setAcked, hb]
        dsimp only
        rw [heap.refcount_set]
        by_cases hbi : b = i
        · subst hbi
          rw [if_pos rfl, heap.set_self, Heap.refcount]
          cases hx : heap.cell b with
          | none => exact ⟨rfl, fun x hx => by cases hx⟩
          | some x' =>
              refine ⟨rfl, fun x hx => ⟨x', rfl, ?_⟩⟩
              rw [Option.map_some, Option.some.injEq] at hx
              rw [← hx]
        · rw [if_neg hbi, heap.set_of_ne hbi]
          exact ⟨rfl, fun x hx => ⟨x, hx, rfl⟩⟩
      refine ⟨fun b => (hset b).1.trans (h.refcount b), fun b x hx => ?_, fun b x hx => ?_⟩
      · obtain ⟨x', hx', heq⟩ := (hset b).2 x hx
        rw [heq]
        exact h.pos b x' hx'
      · obtain ⟨x', hx', -⟩ := (hset b).2 x hx
        rw [show (heap.setAcked f).next = heap.next by rw [Heap.setAcked, hb]; rfl]
        exact h.lt b x' hx'

end Counted

end Zngtcp2.FrameChain
