import Zngtcp2.Buf
import Mathlib.Data.List.Induction

namespace Zngtcp2

/-- `ngtcp2_window_filter_sample`; `no` is the number of the update that supplied it, which the code does not keep. -/
structure Estimate where
  sample : Nat
  time : Nat
  no : Nat
  deriving DecidableEq, Repr

structure WindowFilter where
  windowLength : Nat
  est0 : Estimate
  est1 : Estimate
  est2 : Estimate
  deriving DecidableEq, Repr

namespace WindowFilter

/-- `ngtcp2_window_filter_init` -/
def init (windowLength : Nat) : WindowFilter :=
  let unset : Estimate := ⟨uint64Max, uint64Max, 0⟩
  ⟨windowLength, unset, unset, unset⟩

variable (wf : WindowFilter) (new : Estimate)

/-- `ngtcp2_window_filter_reset` -/
def reset : WindowFilter :=
  { wf with est0 := new, est1 := new, est2 := new }

/-- The part of `ngtcp2_window_filter_update` that ranks the new sample behind the best one. -/
def rank : WindowFilter :=
  if wf.est1.sample < new.sample then { wf with est1 := new, est2 := new }
  else if wf.est2.sample < new.sample then { wf with est2 := new }
  else wf

def promote : WindowFilter :=
  { wf with est0 := wf.est1, est1 := wf.est2 }

/-- What `ngtcp2_window_filter_update` does once the best estimate has expired. -/
def expire : WindowFilter :=
  let wf : WindowFilter := { wf.promote with est2 := new }
  if wf.windowLength < sub64 new.time wf.est0.time then wf.promote else wf

/-- The part of `ngtcp2_window_filter_update` that expires and refreshes estimates. -/
def refresh : WindowFilter :=
  if wf.windowLength < sub64 new.time wf.est0.time then wf.expire new
  else if wf.est1.sample = wf.est0.sample ∧ wf.windowLength / 4 < sub64 new.time wf.est1.time then
    { wf with est1 := new, est2 := new }
  else if wf.est2.sample = wf.est1.sample ∧ wf.windowLength / 2 < sub64 new.time wf.est2.time then
    { wf with est2 := new }
  else wf

/-- `ngtcp2_window_filter_update` -/
def update : WindowFilter :=
  if wf.est0.sample = uint64Max ∨ wf.est0.sample < new.sample ∨ wf.windowLength < sub64 new.time wf.est2.time then
    wf.reset new
  else (wf.rank new).refresh new

/-- `ngtcp2_window_filter_get_best` -/
def getBest : Nat :=
  wf.est0.sample

/-- The filter after the samples, given with their times, have been supplied one after the other. -/
def updates (windowLength : Nat) (samples : List (Nat × Nat)) : WindowFilter :=
  (samples.mapIdx fun i s => (⟨s.1, s.2, i⟩ : Estimate)).foldl update (init windowLength)

/-- The estimate was supplied, and since then nothing larger was. -/
structure Good (samples : List (Nat × Nat)) (e : Estimate) : Prop where
  supplied : samples[e.no]? = some (e.sample, e.time)
  covers : ∀ i s, e.no ≤ i → samples[i]? = some s → s.1 ≤ e.sample

theorem Good.append {samples : List (Nat × Nat)} {e : Estimate} (h : Good samples e) {x : Nat × Nat} (hx : x.1 ≤ e.sample) :
    Good (samples ++ [x]) e := by
  obtain ⟨hlt, -⟩ := List.getElem?_eq_some_iff.mp h.supplied
  refine ⟨?_, fun i s hi hs => ?_⟩
  · rw [List.getElem?_append_left hlt]
    exact h.supplied
  · by_cases hold : i < samples.length
    · rw [List.getElem?_append_left hold] at hs
      exact h.covers i s hi hs
    · rw [List.getElem?_append_right (Nat.not_lt.mp hold)] at hs
      obtain rfl := List.mem_singleton.mp (List.mem_of_getElem? hs)
      exact hx

theorem Good.last (samples : List (Nat × Nat)) (x : Nat × Nat) : Good (samples ++ [x]) ⟨x.1, x.2, samples.length⟩ := by
  refine ⟨List.getElem?_concat_length, fun i s hi hs => ?_⟩
  rw [List.getElem?_append_right hi] at hs
  obtain rfl := List.mem_singleton.mp (List.mem_of_getElem? hs)
  exact Nat.le_refl _

/-- The estimates were supplied one after the other, each one the largest sample since then. -/
structure Ranked (samples : List (Nat × Nat)) (now : Nat) (wf : WindowFilter) : Prop where
  good0 : Good samples wf.est0
  good1 : Good samples wf.est1
  good2 : Good samples wf.est2
  sample01 : wf.est1.sample ≤ wf.est0.sample
  sample12 : wf.est2.sample ≤ wf.est1.sample
  time01 : wf.est0.time ≤ wf.est1.time
  time12 : wf.est1.time ≤ wf.est2.time
  time_le : wf.est2.time ≤ now

variable {wf} {new} {samples : List (Nat × Nat)} {now : Nat} {x : Nat × Nat}

theorem Ranked.reset (hnew : Good samples new) (hnow : new.time ≤ now) : Ranked samples now (wf.reset new) :=
  ⟨hnew, hnew, hnew, Nat.le_refl _, Nat.le_refl _, Nat.le_refl _, Nat.le_refl _, hnow⟩

theorem Ranked.rank (h : Ranked samples now wf) (hbest : x.1 ≤ wf.est0.sample) (hnow : now ≤ x.2) :
    Ranked (samples ++ [x]) x.2 (wf.rank ⟨x.1, x.2, samples.length⟩) ∧
      x.1 ≤ (wf.rank ⟨x.1, x.2, samples.length⟩).est2.sample ∧
      wf.est2.time ≤ (wf.rank ⟨x.1, x.2, samples.length⟩).est2.time ∧
      (wf.rank ⟨x.1, x.2, samples.length⟩).windowLength = wf.windowLength := by
  have hlast := Good.last samples x
  have htime := h.time_le.trans hnow
  rw [WindowFilter.rank]
  simp only
  split
  · exact ⟨⟨h.good0.append hbest, hlast, hlast, hbest, Nat.le_refl _, (h.time01.trans h.time12).trans htime, Nat.le_refl _,
      Nat.le_refl _⟩, Nat.le_refl _, htime, rfl⟩
  · rename_i hle1
    have hgood1 := h.good1.append (Nat.not_lt.mp hle1)
    split
    · exact ⟨⟨h.good0.append hbest, hgood1, hlast, h.sample01, Nat.not_lt.mp hle1, h.time01, h.time12.trans htime,
        Nat.le_refl _⟩, Nat.le_refl _, htime, rfl⟩
    · rename_i hle2
      exact ⟨⟨h.good0.append hbest, hgood1, h.good2.append (Nat.not_lt.mp hle2), h.sample01, h.sample12, h.time01, h.time12,
        htime⟩, Nat.not_lt.mp hle2, Nat.le_refl _, rfl⟩

theorem Ranked.refresh (h : Ranked samples new.time wf) (hnew : Good samples new) (hle : new.sample ≤ wf.est2.sample)
    (hfresh : new.time ≤ wf.est2.time + wf.windowLength) (hword : new.time < 2 ^ 64) :
    Ranked samples new.time (wf.refresh new) ∧ new.time ≤ (wf.refresh new).est0.time + wf.windowLength ∧
      (wf.refresh new).windowLength = wf.windowLength := by
  have hsub : ∀ {t}, t ≤ new.time → sub64 new.time t = new.time - t := fun ht => sub64_of_le ht hword
  have ht1 := h.time12.trans h.time_le
  have ht0 := h.time01.trans ht1
  rw [WindowFilter.refresh]
  split
  · -- the second estimate may have expired as well as the best one, but not the third
    have hexpire : wf.expire new = if wf.windowLength < sub64 new.time wf.est1.time then ⟨wf.windowLength, wf.est2, new, new⟩
        else ⟨wf.windowLength, wf.est1, wf.est2, new⟩ := rfl
    rw [hexpire]
    split
    · exact ⟨⟨h.good2, hnew, hnew, hle, Nat.le_refl _, h.time_le, Nat.le_refl _, Nat.le_refl _⟩, hfresh, rfl⟩
    · rename_i hsecond
      rw [hsub ht1] at hsecond
      have hsecond : new.time ≤ wf.est1.time + wf.windowLength := by omega
      exact ⟨⟨h.good1, h.good2, hnew, h.sample12, hle, h.time12, h.time_le, Nat.le_refl _⟩, hsecond, rfl⟩
  · rename_i hbest
    rw [hsub ht0] at hbest
    have hbest : new.time ≤ wf.est0.time + wf.windowLength := by omega
    split
    · exact ⟨⟨h.good0, hnew, hnew, (hle.trans h.sample12).trans h.sample01, Nat.le_refl _, ht0, Nat.le_refl _, Nat.le_refl _⟩,
        hbest, rfl⟩
    · split
      · exact ⟨⟨h.good0, h.good1, hnew, h.sample01, hle.trans h.sample12, h.time01, ht1, Nat.le_refl _⟩, hbest, rfl⟩
      · exact ⟨h, hbest, rfl⟩

/-- Every estimate has the property. -/
structure All (p : Estimate → Prop) (wf : WindowFilter) : Prop where
  est0 : p wf.est0
  est1 : p wf.est1
  est2 : p wf.est2

variable {p : Estimate → Prop}

theorem All.rank (h : All p wf) (hnew : p new) : All p (wf.rank new) := by
  rw [WindowFilter.rank]
  split_ifs
  · exact ⟨h.est0, hnew, hnew⟩
  · exact ⟨h.est0, h.est1, hnew⟩
  · exact h

theorem All.expire (h : All p wf) (hnew : p new) : All p (wf.expire new) := by
  rw [WindowFilter.expire]
  simp only
  split
  · exact ⟨h.est2, hnew, hnew⟩
  · exact ⟨h.est1, h.est2, hnew⟩

theorem All.refresh (h : All p wf) (hnew : p new) : All p (wf.refresh new) := by
  rw [WindowFilter.refresh]
  split_ifs
  · exact h.expire hnew
  · exact ⟨h.est0, hnew, hnew⟩
  · exact ⟨h.est0, h.est1, hnew⟩
  · exact h

/-- After an update all estimates are set. -/
theorem All.update (h : wf.est0.sample = uint64Max ∨ All p wf) (hnew : p new) : All p (wf.update new) := by
  rw [WindowFilter.update]
  split
  · exact ⟨hnew, hnew, hnew⟩
  · rename_i hkeep
    simp only [not_or] at hkeep
    exact ((h.resolve_left hkeep.1).rank hnew).refresh hnew

/-- What holds after an update at `now`. -/
structure Inv (windowLength : Nat) (samples : List (Nat × Nat)) (now : Nat) (wf : WindowFilter) : Prop where
  ranked : Ranked samples now wf
  fresh : now ≤ wf.est0.time + windowLength
  length_eq : wf.windowLength = windowLength

variable {windowLength : Nat}

theorem Inv.reset (samples : List (Nat × Nat)) (x : Nat × Nat) (hlength : wf.windowLength = windowLength) :
    Inv windowLength (samples ++ [x]) x.2 (wf.reset ⟨x.1, x.2, samples.length⟩) :=
  ⟨.reset (.last samples x) (Nat.le_refl _), Nat.le_add_right _ _, hlength⟩

theorem Inv.update (h : Inv windowLength samples now wf) (hnow : now ≤ x.2) (hword : x.2 < 2 ^ 64) :
    Inv windowLength (samples ++ [x]) x.2 (wf.update ⟨x.1, x.2, samples.length⟩) := by
  rw [WindowFilter.update]
  split
  · exact .reset samples x h.length_eq
  · rename_i hkeep
    simp only [not_or, Nat.not_lt] at hkeep
    obtain ⟨-, hbest, hfresh⟩ := hkeep
    rw [sub64_of_le (h.ranked.time_le.trans hnow) hword, h.length_eq] at hfresh
    obtain ⟨hranked, hrank, htime, hlength⟩ := h.ranked.rank hbest hnow
    rw [h.length_eq] at hlength
    have hthird : x.2 ≤ (wf.rank ⟨x.1, x.2, samples.length⟩).est2.time +
        (wf.rank ⟨x.1, x.2, samples.length⟩).windowLength := by
      rw [hlength]
      omega
    obtain ⟨hranked', hfresh', hlength'⟩ := hranked.refresh (.last samples x) hrank hthird hword
    rw [hlength] at hfresh' hlength'
    exact ⟨hranked', hfresh', hlength'⟩

theorem updates_concat (windowLength : Nat) (samples : List (Nat × Nat)) (x : Nat × Nat) :
    updates windowLength (samples ++ [x]) = (updates windowLength samples).update ⟨x.1, x.2, samples.length⟩ := by
  rw [updates, List.mapIdx_concat, List.foldl_append]
  rfl

theorem updates_inv (windowLength : Nat) {samples : List (Nat × Nat)} {x : Nat × Nat}
    (hsorted : ((samples ++ [x]).map Prod.snd).Pairwise (· ≤ ·)) (hword : ∀ s ∈ samples ++ [x], s.2 < 2 ^ 64) :
    Inv windowLength (samples ++ [x]) x.2 (updates windowLength (samples ++ [x])) := by
  induction samples using List.reverseRecOn generalizing x with
  | nil => exact .reset [] x rfl
  | append_singleton samples y ih =>
      rw [updates_concat]
      rw [List.map_append, List.pairwise_append] at hsorted
      obtain ⟨hbefore, -, hlast⟩ := hsorted
      have hy : y.2 ≤ x.2 := hlast y.2 (List.mem_map_of_mem List.mem_concat_self) x.2 List.mem_cons_self
      exact (ih hbefore fun s hs => hword s (List.mem_append_left [x] hs)).update hy (hword x List.mem_concat_self)

/-- After every update the estimates are samples that were supplied, in the order of their sizes and times; the best one is
no older than the window, and is not below any sample since the second one, the newest sample among them. -/
theorem updates_estimates (windowLength : Nat) (samples : List (Nat × Nat)) (x : Nat × Nat)
    (hsorted : ((samples ++ [x]).map Prod.snd).Pairwise (· ≤ ·)) (hword : ∀ s ∈ samples ++ [x], s.2 < 2 ^ 64) :
    let wf := updates windowLength (samples ++ [x])
    (wf.est1.sample ≤ wf.est0.sample ∧ wf.est2.sample ≤ wf.est1.sample) ∧
      (wf.est0.time ≤ wf.est1.time ∧ wf.est1.time ≤ wf.est2.time ∧ wf.est2.time ≤ x.2) ∧
      (∀ e ∈ [wf.est0, wf.est1, wf.est2], (samples ++ [x])[e.no]? = some (e.sample, e.time)) ∧
      x.2 - wf.est0.time ≤ windowLength ∧ x.1 ≤ wf.getBest ∧
      ∀ i s, wf.est1.no ≤ i → (samples ++ [x])[i]? = some s → s.1 ≤ wf.getBest := by
  obtain ⟨hranked, hfresh, -⟩ := updates_inv windowLength hsorted hword
  have hsince : ∀ i s, (updates windowLength (samples ++ [x])).est1.no ≤ i → (samples ++ [x])[i]? = some s →
      s.1 ≤ (updates windowLength (samples ++ [x])).getBest :=
    fun i s hi hs => (hranked.good1.covers i s hi hs).trans hranked.sample01
  obtain ⟨hlast, -⟩ := List.getElem?_eq_some_iff.mp hranked.good1.supplied
  rw [List.length_append, List.length_singleton] at hlast
  refine ⟨⟨hranked.sample01, hranked.sample12⟩, ⟨hranked.time01, hranked.time12, hranked.time_le⟩, ?_,
    Nat.sub_le_iff_le_add'.mpr hfresh, hsince samples.length x (Nat.lt_succ_iff.mp hlast) List.getElem?_concat_length, hsince⟩
  intro e he
  rcases List.mem_cons.mp he with rfl | he
  · exact hranked.good0.supplied
  · rcases List.mem_cons.mp he with rfl | he
    · exact hranked.good1.supplied
    · rw [List.mem_singleton.mp he]
      exact hranked.good2.supplied

/-- In a window of 100 the best sample expires, and its two successors are promoted. -/
theorem updates_estimates_promoted :
    updates 100 [(9, 0), (5, 30), (4, 90), (1, 130)] = ⟨100, ⟨5, 30, 1⟩, ⟨4, 90, 2⟩, ⟨1, 130, 3⟩⟩ ∧
      (130 - 30 ≤ 100 ∧ 1 ≤ 5) := by
  have h := updates_estimates 100 [(9, 0), (5, 30), (4, 90)] (1, 130) (by decide) (by decide)
  have heq : updates 100 ([(9, 0), (5, 30), (4, 90)] ++ [(1, 130)]) = ⟨100, ⟨5, 30, 1⟩, ⟨4, 90, 2⟩, ⟨1, 130, 3⟩⟩ := by
    decide
  rw [heq] at h
  exact ⟨heq, h.2.2.2.1, h.2.2.2.2.1⟩

end WindowFilter

end Zngtcp2
