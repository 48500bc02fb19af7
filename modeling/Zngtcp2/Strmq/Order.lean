import Mathlib.Data.Fintype.Card
import Zngtcp2.Pq.Local
import Zngtcp2.Strmq.Model

namespace Zngtcp2

open Lib.Run Pq

/-- The order of `cycle_less` if the lowest cycle is `c`. -/
def rankLess (cycle : Nat → Nat) (c a b : Nat) : Bool :=
  sub64 (cycle a) c < sub64 (cycle b) c || sub64 (cycle a) c = sub64 (cycle b) c && decide (a < b)

instance rankLess_isStrictWeakOrder (cycle : Nat → Nat) (c : Nat) : IsStrictWeakOrder Nat (Lt (rankLess cycle c)) where
  irrefl a := by
    simp [Lt, rankLess]
  trans a b d hab hbd := by
    simp only [Lt, rankLess, Bool.or_eq_true, Bool.and_eq_true, decide_eq_true_eq] at hab hbd ⊢
    omega
  incomp_trans a b d hab hbd := by
    simp only [Lt, rankLess, Bool.or_eq_true, Bool.and_eq_true, decide_eq_true_eq] at hab hbd ⊢
    omega

/-- The cycle is the lowest one or the next one. -/
def InWindow (cycle : Nat → Nat) (c a : Nat) : Prop :=
  cycle a = c ∨ cycle a = (c + 1) % 2 ^ 64

theorem sub64_self (c : Nat) : sub64 c c = 0 := by
  rw [sub64, Nat.add_sub_cancel_left, Nat.mod_self]

theorem sub64_next {c : Nat} (hc : c < 2 ^ 64) : sub64 ((c + 1) % 2 ^ 64) c = 1 := by
  rw [sub64]
  omega

theorem sub64_prev {c : Nat} (hc : c < 2 ^ 64) : sub64 c ((c + 1) % 2 ^ 64) = 2 ^ 64 - 1 := by
  rw [sub64]
  omega

theorem next_ne (c : Nat) : (c + 1) % 2 ^ 64 ≠ c := by
  omega

/-- Within the window the wrap-around comparison is an order. -/
theorem cycleLess_eq_rankLess {cycle : Nat → Nat} {c a b : Nat} (hc : c < 2 ^ 64) (ha : InWindow cycle c a)
    (hb : InWindow cycle c b) : cycleLess cycle a b = rankLess cycle c a b := by
  have hne := next_ne c
  rw [cycleLess, rankLess]
  rcases ha with ha | ha <;> rcases hb with hb | hb <;> rw [ha, hb]
  · simp [sub64_self]
  · rw [if_neg (Ne.symm hne), sub64_next hc, sub64_self]
    rfl
  · rw [if_neg hne, sub64_prev hc, sub64_next hc, sub64_self]
    rfl
  · simp

namespace Strmq

/-- The queue is a heap for the order from a lowest cycle, all cycles are in its window, and a stream that exists and is
not queued says so. -/
structure Inv (s : Strmq) (c : Nat) : Prop where
  lowest : c < 2 ^ 64
  heap : s.pq.IsHeap (rankLess s.cycle c)
  window : ∀ x, s.pq.Holds x → InWindow s.cycle c x
  exists_of_holds : ∀ x, s.pq.Holds x → s.strms x = true ∧ x < 2 ^ 62
  index : ∀ x, s.strms x = true → ¬ s.pq.Holds x → s.pq.index x = badIndex
  word : ∀ x, s.cycle x < 2 ^ 64

variable {s s' : Strmq} {c : Nat}

theorem Inv.agree (h : Inv s c) : Agree (cycleLess s.cycle) (rankLess s.cycle c) s.pq.Holds :=
  fun a b ha hb => cycleLess_eq_rankLess h.lowest (h.window a ha) (h.window b hb)

/-- There are no more streams in the queue than stream IDs. -/
theorem Inv.length_le (h : Inv s c) : s.pq.length ≤ 2 ^ 62 := by
  have hinj : Function.Injective fun i : Fin s.pq.length =>
      (⟨s.pq.q i, (h.exists_of_holds _ ⟨i, i.isLt, rfl⟩).2⟩ : Fin (2 ^ 62)) := by
    intro i j hij
    by_contra hne
    exact h.heap.indexed.ne i.isLt j.isLt (fun hc => hne (Fin.ext hc)) (congrArg Fin.val hij)
  have hcard := Fintype.card_le_of_injective _ hinj
  rwa [Fintype.card_fin, Fintype.card_fin] at hcard

theorem Inv.queued_iff (h : Inv s c) {x : Nat} (hx : s.strms x = true) : s.isTxQueued x = true ↔ s.pq.Holds x := by
  rw [isTxQueued, decide_eq_true_eq]
  constructor
  · exact fun hne => by_contra fun hnot => hne (h.index x hx hnot)
  · rintro ⟨i, hi, rfl⟩
    have hle := h.length_le
    rw [h.heap.indexed i hi, badIndex, uint64Max]
    omega

theorem Inv.top_holds (hne : s.pq.length ≠ 0) : s.pq.Holds (s.pq.q 0) :=
  ⟨0, Nat.pos_of_ne_zero hne, rfl⟩

theorem length_ne {x : Nat} (hx : s.pq.Holds x) : s.pq.length ≠ 0 := by
  obtain ⟨i, hi, -⟩ := hx
  omega

/-- No stream in the queue goes before the first one. -/
theorem Inv.not_less (h : Inv s c) {x : Nat} (hx : s.pq.Holds x) : rankLess s.cycle c x (s.pq.q 0) = false := by
  obtain ⟨i, hi, rfl⟩ := hx
  exact Bool.not_eq_true _ ▸ h.heap.ordered.root i hi

/-- If a stream in the queue has the lowest cycle, so has the first one. -/
theorem Inv.cycle_top (h : Inv s c) {x : Nat} (hx : s.pq.Holds x) (hcx : s.cycle x = c) : s.cycle (s.pq.q 0) = c := by
  refine (h.window _ (top_holds (length_ne hx))).resolve_right fun hnext => ?_
  have hless := h.not_less hx
  rw [rankLess, hcx, hnext, sub64_self, sub64_next h.lowest] at hless
  cases hless

/-- The lowest cycle can be taken to be the one of the first stream. -/
theorem Inv.first (h : Inv s c) : Inv s s.firstCycle := by
  rw [firstCycle]
  split
  · rename_i hempty
    have hnone : ∀ x, ¬ s.pq.Holds x := fun x hx => length_ne hx hempty
    exact ⟨by decide, h.heap.congr fun a _ ha => absurd ha (hnone a), fun x hx => absurd hx (hnone x), h.exists_of_holds,
      h.index, h.word⟩
  · rename_i hne
    rcases h.window _ (top_holds hne) with htop | htop
    · rwa [htop]
    · have hlowest : s.cycle (s.pq.q 0) < 2 ^ 64 := h.word _
      have hwindow : ∀ x, s.pq.Holds x → InWindow s.cycle (s.cycle (s.pq.q 0)) x := by
        intro x hx
        refine Or.inl ((h.window x hx).elim (fun hcx => ?_) fun hcx => hcx.trans htop.symm)
        exact absurd (htop.symm.trans (h.cycle_top hx hcx)) (next_ne c)
      refine ⟨hlowest, h.heap.congr fun a b ha hb => ?_, hwindow, h.exists_of_holds, h.index, h.word⟩
      rw [← h.agree a b ha hb, cycleLess_eq_rankLess hlowest (hwindow a ha) (hwindow b hb)]

theorem withCycle_of_ne {strm x : Nat} (hx : x ≠ strm) (cycle : Nat) : (s.withCycle strm cycle).cycle x = s.cycle x :=
  Function.update_of_ne hx _ _

theorem withCycle_self (strm cycle : Nat) : (s.withCycle strm cycle).cycle strm = cycle :=
  Function.update_self _ _ _

/-- The cycle of a stream that is not queued may change. -/
theorem Inv.withCycle (h : Inv s c) {strm : Nat} (hnot : ¬ s.pq.Holds strm) {cycle : Nat} (hcycle : cycle < 2 ^ 64) :
    Inv (s.withCycle strm cycle) c := by
  have hsame : ∀ x, s.pq.Holds x → (s.withCycle strm cycle).cycle x = s.cycle x := by
    intro x hx
    apply withCycle_of_ne
    rintro rfl
    exact hnot hx
  refine ⟨h.lowest, h.heap.congr fun a b ha hb => ?_, fun x hx => ?_, h.exists_of_holds, h.index, fun x => ?_⟩
  · rw [rankLess, rankLess, hsame a ha, hsame b hb]
  · rw [InWindow, hsame x hx]
    exact h.window x hx
  · by_cases hx : x = strm
    · rwa [hx, withCycle_self]
    · rw [withCycle_of_ne hx]
      exact h.word x

theorem Inv.push (h : Inv s c) {strm : Nat} (hnot : ¬ s.pq.Holds strm) (hexists : s.strms strm = true) (hid : strm < 2 ^ 62)
    (hwindow : InWindow s.cycle c strm) (alloc : Bool) :
    Inv (s.push strm alloc).2 c ∧ (∀ x, s.pq.Holds x → (s.push strm alloc).2.pq.Holds x) ∧
      (∀ x, (s.push strm alloc).2.pq.Holds x → x = strm ∨ s.pq.Holds x) := by
  have hmem : ∀ x, x = strm ∨ s.pq.Holds x → InWindow s.cycle c x := by
    rintro x (rfl | hx)
    · exact hwindow
    · exact h.window x hx
  have hagree : Agree (cycleLess s.cycle) (rankLess s.cycle c) fun x => x = strm ∨ s.pq.Holds x :=
    fun a b ha hb => cycleLess_eq_rankLess h.lowest (hmem a ha) (hmem b hb)
  rw [Strmq.push]
  rcases push_local h.heap hnot hagree alloc with hpush | ⟨pq, hpush, hheap, hholds, hindex⟩
  · rw [hpush]
    exact ⟨h, fun x hx => hx, fun x hx => Or.inr hx⟩
  · rw [hpush]
    refine ⟨⟨h.lowest, hheap, fun x hx => hmem x ((hholds x).mp hx), fun x hx => ?_, fun x hx hnx => ?_, h.word⟩,
      fun x hx => (hholds x).mpr (Or.inr hx), fun x => (hholds x).mp⟩
    · rcases (hholds x).mp hx with rfl | hx
      · exact ⟨hexists, hid⟩
      · exact h.exists_of_holds x hx
    · have hnx : ¬ (x = strm ∨ s.pq.Holds x) := fun hc => hnx ((hholds x).mpr hc)
      rw [hindex x (fun hc => hnx (Or.inr hc)) (fun hc => hnx (Or.inl hc))]
      exact h.index x hx fun hc => hnx (Or.inr hc)

/-- The streams in the queue stay there, with their cycles, and no stream sends data. -/
structure Extends (s s' : Strmq) : Prop where
  holds : ∀ x, s.pq.Holds x → s'.pq.Holds x ∧ s'.cycle x = s.cycle x
  sent : s'.sent = s.sent

theorem Extends.refl (s : Strmq) : Extends s s :=
  ⟨fun _ hx => ⟨hx, rfl⟩, rfl⟩

theorem Extends.trans {s'' : Strmq} (h : Extends s s') (h' : Extends s' s'') : Extends s s'' := by
  refine ⟨fun x hx => ?_, h'.sent.trans h.sent⟩
  obtain ⟨hx', hcycle⟩ := h.holds x hx
  obtain ⟨hx'', hcycle'⟩ := h'.holds x hx'
  exact ⟨hx'', hcycle'.trans hcycle⟩

theorem withCycle_extends {strm : Nat} (hnot : ¬ s.pq.Holds strm) (cycle : Nat) : Extends s (s.withCycle strm cycle) := by
  refine ⟨fun x hx => ⟨hx, withCycle_of_ne ?_ cycle⟩, rfl⟩
  rintro rfl
  exact hnot hx

/-- A stream joins the queue with the cycle of the first stream. -/
theorem Inv.enqueue (h : Inv s s.firstCycle) {strm : Nat} (hnot : ¬ s.pq.Holds strm) (hexists : s.strms strm = true)
    (hid : strm < 2 ^ 62) (alloc : Bool) :
    Inv ((s.withCycle strm s.firstCycle).push strm alloc).2 s.firstCycle ∧
      Extends s ((s.withCycle strm s.firstCycle).push strm alloc).2 := by
  have hcycle := h.withCycle hnot h.lowest
  obtain ⟨hpush, hholds, -⟩ := hcycle.push hnot hexists hid (Or.inl (withCycle_self strm _)) alloc
  exact ⟨hpush, (withCycle_extends hnot _).trans ⟨fun x hx => ⟨hholds x hx, rfl⟩, rfl⟩⟩

theorem Inv.schedule (h : Inv s s.firstCycle) {strm : Nat} (hexists : s.strms strm = true) (hid : strm < 2 ^ 62)
    (alloc : Bool) : Inv (s.schedule strm alloc).2 s.firstCycle ∧ Extends s (s.schedule strm alloc).2 := by
  rw [Strmq.schedule]
  split
  · exact ⟨h, .refl s⟩
  · rename_i hnot
    rw [h.queued_iff hexists] at hnot
    exact h.enqueue hnot hexists hid alloc

theorem Inv.extendMaxStreamOffset (h : Inv s s.firstCycle) {strm : Nat} (hexists : s.strms strm = true)
    (hid : strm < 2 ^ 62) (due alloc : Bool) :
    Inv (s.extendMaxStreamOffset strm due alloc).2 s.firstCycle ∧ Extends s (s.extendMaxStreamOffset strm due alloc).2 := by
  simp only [Strmq.extendMaxStreamOffset]
  split
  · rename_i hdue
    have hnot : ¬ s.pq.Holds strm := by
      rw [← h.queued_iff hexists]
      simpa using hdue.1
    by_cases hempty : s.pq.length = 0
    · rw [if_pos hempty]
      exact h.enqueue hnot hexists hid alloc
    · rw [if_neg hempty]
      have hfirst : (s.withCycle strm (s.cycle (s.pq.q 0))).firstCycle = s.firstCycle := by
        rw [firstCycle, firstCycle]
        refine (if_neg hempty).trans (Eq.trans ?_ (if_neg hempty).symm)
        exact ((withCycle_extends hnot _).holds _ (top_holds hempty)).2
      have hcycle : Inv (s.withCycle strm (s.cycle (s.pq.q 0))) s.firstCycle := h.withCycle hnot (h.word _)
      rw [← hfirst] at hcycle
      obtain ⟨hinv, hextends⟩ := hcycle.enqueue hnot hexists hid alloc
      rw [hfirst] at hinv hextends
      rw [hfirst]
      exact ⟨hinv, (withCycle_extends hnot _).trans hextends⟩
  · exact ⟨h, .refl s⟩

theorem Inv.openStream (h : Inv s c) {strm : Nat} (hnew : s.strms strm = false) :
    Inv (s.openStream strm) c ∧ Extends s (s.openStream strm) := by
  have hnot : ¬ s.pq.Holds strm := by
    intro hx
    rw [(h.exists_of_holds strm hx).1] at hnew
    cases hnew
  have hcycle := h.withCycle hnot (show 0 < 2 ^ 64 by decide)
  refine ⟨⟨h.lowest, hcycle.heap.withIndex hnot badIndex, hcycle.window, fun x hx => ?_, fun x hx hnx => ?_, hcycle.word⟩,
    fun x hx => ⟨hx, ((withCycle_extends hnot 0).holds x hx).2⟩, rfl⟩
  · have hne : x ≠ strm := by
      rintro rfl
      exact hnot hx
    exact ⟨(Function.update_of_ne hne _ _).trans (h.exists_of_holds x hx).1, (h.exists_of_holds x hx).2⟩
  · by_cases hxs : x = strm
    · subst hxs
      exact Function.update_self _ _ _
    · have hx : s.strms x = true := (Function.update_of_ne hxs _ _).symm.trans hx
      exact (Function.update_of_ne hxs _ _).trans (h.index x hx hnx)

theorem Inv.call (h : Inv s s.firstCycle) (call : Call) (hid : call.strm < 2 ^ 62) :
    Inv (s.call call) s.firstCycle ∧ Extends s (s.call call) := by
  cases call with
  | «open» strm =>
      rw [Strmq.call]
      split
      · exact ⟨h, .refl s⟩
      · exact h.openStream (Bool.not_eq_true _ ▸ ‹_›)
  | schedule strm alloc =>
      rw [Strmq.call]
      split
      · exact h.schedule ‹_› hid alloc
      · exact ⟨h, .refl s⟩
  | extendMaxStreamOffset strm due alloc =>
      rw [Strmq.call]
      split
      · exact h.extendMaxStreamOffset ‹_› hid due alloc
      · exact ⟨h, .refl s⟩

/-- A stream is taken out of the queue, and its cycle does not matter any more. -/
theorem Inv.shrink (h : Inv s c) {strm : Nat} {pq : Pq Nat} (hheap : pq.IsHeap (rankLess s.cycle c))
    (hholds : ∀ x, pq.Holds x ↔ s.pq.Holds x ∧ x ≠ strm) (hindex : ∀ x, ¬ s.pq.Holds x → pq.index x = s.pq.index x) :
    Inv { s with pq := { pq with index := Function.update pq.index strm badIndex } } c := by
  have hnot : ¬ pq.Holds strm := fun hx => ((hholds strm).mp hx).2 rfl
  refine ⟨h.lowest, hheap.withIndex hnot badIndex, fun x hx => h.window x ((hholds x).mp hx).1,
    fun x hx => h.exists_of_holds x ((hholds x).mp hx).1, fun x hx hnx => ?_, h.word⟩
  by_cases hxs : x = strm
  · subst hxs
    exact Function.update_self _ _ _
  · have hnx : ¬ s.pq.Holds x := fun hc => hnx ((hholds x).mpr ⟨hc, hxs⟩)
    refine (Function.update_of_ne hxs _ _).trans ((hindex x hnx).trans (h.index x hx hnx))

theorem Inv.pop (h : Inv s c) (hne : s.pq.length ≠ 0) :
    ∃ pq, s.pop = .ok { s with pq := pq } ∧ Inv { s with pq := pq } c ∧
      ∀ x, pq.Holds x ↔ s.pq.Holds x ∧ x ≠ s.pq.q 0 := by
  obtain ⟨pq, hpop, hheap, hholds, hindex⟩ := pop_local h.heap hne h.agree
  have htop : s.top = .ok (s.pq.q 0) := if_neg hne
  refine ⟨{ pq with index := Function.update pq.index (s.pq.q 0) badIndex }, ?_, h.shrink hheap hholds hindex, hholds⟩
  rw [Strmq.pop, htop]
  show (s.pq.pop (cycleLess s.cycle) >>= fun _ => _) = _
  rw [hpop]
  rfl

theorem Inv.forget (h : Inv s c) {strm : Nat} {pq : Pq Nat} (hheap : pq.IsHeap (rankLess s.cycle c))
    (hholds : ∀ x, pq.Holds x ↔ s.pq.Holds x ∧ x ≠ strm) (hindex : ∀ x, ¬ s.pq.Holds x → pq.index x = s.pq.index x) :
    Inv ({ s with pq := pq }.forget strm) c := by
  have hexists : ∀ x, x ≠ strm → Function.update s.strms strm false x = s.strms x :=
    fun x hx => Function.update_of_ne hx _ _
  refine ⟨h.lowest, hheap, fun x hx => h.window x ((hholds x).mp hx).1, fun x hx => ?_, fun x hx hnx => ?_, h.word⟩
  · obtain ⟨hx, hne⟩ := (hholds x).mp hx
    exact ⟨(hexists x hne).trans (h.exists_of_holds x hx).1, (h.exists_of_holds x hx).2⟩
  · have hne : x ≠ strm := by
      rintro rfl
      have hgone : Function.update s.strms x false x = true := hx
      rw [Function.update_self] at hgone
      cases hgone
    have hnx : ¬ s.pq.Holds x := fun hc => hnx ((hholds x).mpr ⟨hc, hne⟩)
    exact (hindex x hnx).trans (h.index x ((hexists x hne).symm.trans hx) hnx)

theorem Inv.closeStream (h : Inv s c) {strm : Nat} (hexists : s.strms strm = true) :
    ∃ pq, s.closeStream strm = .ok ({ s with pq := pq }.forget strm) ∧ Inv ({ s with pq := pq }.forget strm) c ∧
      ∀ x, pq.Holds x ↔ s.pq.Holds x ∧ x ≠ strm := by
  rw [Strmq.closeStream]
  split
  · rename_i hqueued
    rw [h.queued_iff hexists] at hqueued
    obtain ⟨pq, hremove, hheap, hholds, hindex⟩ := remove_local h.heap hqueued h.agree
    rw [hremove]
    exact ⟨pq, rfl, h.forget hheap hholds hindex, hholds⟩
  · rename_i hqueued
    rw [h.queued_iff hexists] at hqueued
    have hholds : ∀ x, s.pq.Holds x ↔ s.pq.Holds x ∧ x ≠ strm := by
      refine fun x => ⟨fun hx => ⟨hx, ?_⟩, And.left⟩
      rintro rfl
      exact hqueued hx
    exact ⟨s.pq, rfl, h.forget h.heap hholds fun _ _ => rfl, hholds⟩

end Strmq

end Zngtcp2
