import Zngtcp2.Timer.Events

namespace Zngtcp2.Timer

open Lib.Run
open ScidPool (tstampElapsed)

variable {base d ts : Nat}

theorem tstampElapsed_eq_false (h : base = uint64Max ∨ ts < base + d) : tstampElapsed base d ts = false := by
  rw [tstampElapsed]
  obtain rfl | h := h
  · rfl
  · rw [decide_eq_false (Nat.not_le.mpr h), Bool.and_false]

theorem lt_of_not_elapsed (h : tstampElapsed base d ts = false) (hbase : base ≠ uint64Max) (hts : ts < uint64Max) :
    ts < base + d := by
  by_contra hle
  have hlt : base < uint64Max - d := by omega
  rw [tstampElapsed, decide_eq_true hbase, decide_eq_true hlt, decide_eq_true (Nat.not_lt.mp hle)] at h
  cases h

theorem tstampNotElapsed_iff (hts : ts < uint64Max) :
    tstampNotElapsed base d ts = true ↔ base ≠ uint64Max ∧ ts < base + d := by
  rw [tstampNotElapsed, Bool.and_eq_true, Bool.or_eq_true, decide_eq_true_eq, decide_eq_true_eq, decide_eq_true_eq]
  refine and_congr_right fun _ => ⟨fun h => ?_, Or.inr⟩
  omega

namespace AckTimer

theorem cancelExpired_quiet {a : AckTimer} (h : ts < a.expiry d) : a.cancelExpired d ts = a := by
  rw [cancelExpired]
  cases hc : a.cancelTimer with
  | true => rfl
  | false =>
      rw [expiry, hc, Bool.not_false, Bool.true_and] at h
      rw [tstampElapsed_eq_false]
      · rfl
      · by_cases hfirst : a.firstUnackedTs = uint64Max
        · exact Or.inl hfirst
        · rw [decide_eq_true hfirst, if_pos rfl] at h
          exact Or.inr h

theorem lt_cancelExpired (a : AckTimer) (hts : ts < uint64Max) : ts < (a.cancelExpired d ts).expiry d := by
  rw [cancelExpired]
  split
  · exact hts
  · rename_i h
    rw [expiry]
    split
    · rename_i harmed
      rw [Bool.and_eq_true, decide_eq_true_eq] at harmed
      rw [harmed.1, Bool.true_and, Bool.not_eq_true] at h
      exact lt_of_not_elapsed h harmed.2 hts
    · exact hts

end AckTimer

namespace Pv

theorem cancelExpiredTimer_quiet {pv : Pv} (h : ts < pv.nextExpiry) : pv.cancelExpiredTimer ts = pv := by
  rw [cancelExpiredTimer, if_pos h]

theorem lt_cancelExpiredTimer (pv : Pv) (hts : ts < uint64Max) : ts < (pv.cancelExpiredTimer ts).nextExpiry := by
  rw [cancelExpiredTimer]
  split
  · rename_i h
    exact h
  · exact hts

end Pv

namespace KeepAlive

/-- Before the handshake has completed, the timer may be cancelled earlier than `expiry` says. -/
theorem cancelExpired_quiet {k : KeepAlive} (h : ts < k.expiry true) (hts : ts < uint64Max) : k.cancelExpired ts = k := by
  rw [cancelExpired]
  cases hc : k.cancelled with
  | true => rfl
  | false =>
      cases he : tstampElapsed k.lastTs k.timeout ts with
      | false => rfl
      | true =>
          exfalso
          rw [tstampElapsed, Bool.and_eq_true, Bool.and_eq_true, decide_eq_true_eq, decide_eq_true_eq, decide_eq_true_eq] at he
          obtain ⟨⟨hlast, hlt⟩, hle⟩ := he
          rw [expiry, if_neg] at h
          · omega
          · simp only [hc, Bool.not_true, Bool.or_self, Bool.false_or, Bool.or_eq_true, decide_eq_true_eq, not_or]
            omega

theorem lt_cancelExpired (k : KeepAlive) (completed : Bool) (hts : ts < uint64Max) :
    ts < (k.cancelExpired ts).expiry completed := by
  rw [cancelExpired]
  split
  · exact hts
  · rename_i h
    rw [expiry]
    split
    · exact hts
    · rename_i harmed
      simp only [Bool.or_eq_true, decide_eq_true_eq, not_or, Bool.not_eq_true] at harmed
      obtain ⟨⟨⟨⟨hc, -⟩, hlast⟩, -⟩, -⟩ := harmed
      rw [hc, Bool.not_false, Bool.true_and, Bool.not_eq_true] at h
      exact lt_of_not_elapsed h hlast hts

end KeepAlive

namespace Pacing

theorem cancelExpired_quiet {p : Pacing} (h : ts < p.nextTs) : p.cancelExpired ts = p := by
  rw [cancelExpired, if_pos h, ite_self]

theorem lt_cancelExpired (p : Pacing) (hts : ts < uint64Max) : ts < (p.cancelExpired ts).nextTs := by
  rw [cancelExpired]
  split
  · rename_i hnone
    rw [hnone]
    exact hts
  · split
    · rename_i hlt
      exact hlt
    · exact hts

end Pacing

namespace Dcidtr

variable {dtr dtr' : Dcidtr} {timeout : Nat}

theorem removeDcidAt_subset (rb : List Dcid) (i : Nat) : removeDcidAt rb i ⊆ rb := by
  rw [removeDcidAt]
  split
  · exact List.tail_subset rb
  · split
    · exact List.dropLast_subset rb
    · split
      · rename_i src hlast
        intro d hd
        obtain hd | rfl := List.mem_or_eq_of_mem_set (List.dropLast_subset _ hd)
        · exact hd
        · exact List.mem_of_getLast? hlast
      · exact List.Subset.refl rb

theorem removeDcidAt_length {rb : List Dcid} {i : Nat} (hi : i < rb.length) : (removeDcidAt rb i).length + 1 = rb.length := by
  rw [removeDcidAt]
  split
  · rw [List.length_tail]
    omega
  · split
    · rw [List.length_dropLast]
      omega
    · split
      · rw [List.length_dropLast, List.length_set]
        omega
      · rename_i hnone
        rw [List.getLast?_eq_none_iff] at hnone
        rw [hnone] at hi
        cases hi

theorem removeDcidAt_take {rb : List Dcid} {i : Nat} (hi : i < rb.length) : (removeDcidAt rb i).take i = rb.take i := by
  rw [removeDcidAt]
  split
  · rename_i hzero
    rw [hzero, List.take_zero, List.take_zero]
  · split
    · rw [List.dropLast_eq_take, List.take_take]
      congr 1
      omega
    · split
      · rw [List.dropLast_eq_take, List.take_take, List.length_set, Nat.min_eq_left (by omega),
          List.take_set_of_le (Nat.le_refl i)]
      · rfl

theorem onRetire_ok {seq : Nat} (h : dtr.onRetire seq = .ok dtr') : dtr'.bound = dtr.bound ∧ dtr'.retired = dtr.retired := by
  rw [onRetire] at h
  split_ifs at h
  · cases h
    exact ⟨rfl, rfl⟩
  · cases h
    exact ⟨rfl, rfl⟩

theorem retireStaleLoop_spec {n i : Nat} (hlen : dtr.bound.length = i + n)
    (hfront : ∀ d ∈ dtr.bound.take i, tstampNotElapsed d.ts timeout ts = true)
    (hrun : retireStaleLoop timeout ts n i dtr = .ok dtr') :
    (∀ d ∈ dtr'.bound, tstampNotElapsed d.ts timeout ts = true) ∧ dtr'.bound ⊆ dtr.bound ∧ dtr'.retired = dtr.retired := by
  induction n generalizing i dtr with
  | zero =>
      cases hrun
      rw [Nat.add_zero] at hlen
      rw [List.take_of_length_le (Nat.le_of_eq hlen)] at hfront
      exact ⟨hfront, List.Subset.refl _, rfl⟩
  | succ n ih =>
      have hi : i < dtr.bound.length := by omega
      rw [retireStaleLoop, List.getElem?_eq_getElem hi] at hrun
      simp only at hrun
      split at hrun
      · rename_i hlate
        refine ih (by omega) ?_ hrun
        intro d hd
        rw [List.take_succ_eq_append_getElem hi] at hd
        rcases List.mem_append.mp hd with hd | hd
        · exact hfront d hd
        · rw [List.mem_singleton.mp hd]
          exact hlate
      · obtain ⟨dtr₁, hretire, hrun⟩ := bind_ok hrun
        obtain ⟨hbound, hretired⟩ := onRetire_ok hretire
        rw [hbound] at hrun
        have hlength := removeDcidAt_length hi
        obtain ⟨hall, hsub, hsame⟩ := @ih { dtr₁ with bound := removeDcidAt dtr.bound i } i (by simp only; omega)
          (by simp only [removeDcidAt_take hi]; exact hfront) hrun
        exact ⟨hall, fun d hd => removeDcidAt_subset _ i (hsub hd), hsame.trans hretired⟩

theorem retireStaleLoop_quiet {n i : Nat} (h : ∀ d ∈ dtr.bound, tstampNotElapsed d.ts timeout ts = true) :
    retireStaleLoop timeout ts n i dtr = .ok dtr := by
  induction n generalizing i with
  | zero => rfl
  | succ n ih =>
      rw [retireStaleLoop]
      cases hget : dtr.bound[i]? with
      | none => rfl
      | some d =>
          simp only
          rw [if_pos (h d (List.mem_of_getElem? hget))]
          exact ih

theorem earliestBoundTs_le {d : Dcid} (hd : d ∈ dtr.bound) : dtr.earliestBoundTs ≤ d.ts := by
  rw [earliestBoundTs]
  generalize dtr.bound = bound at hd ⊢
  induction bound with
  | nil => cases hd
  | cons a as ih =>
      rw [List.foldr_cons]
      obtain rfl | hd := List.mem_cons.mp hd
      · exact Nat.min_le_left _ _
      · exact (Nat.min_le_right _ _).trans (ih hd)

theorem earliestBoundTs_mem (h : dtr.earliestBoundTs ≠ uint64Max) : ∃ d ∈ dtr.bound, d.ts = dtr.earliestBoundTs := by
  rw [earliestBoundTs] at h ⊢
  generalize dtr.bound = bound at h ⊢
  induction bound with
  | nil => exact absurd rfl h
  | cons a as ih =>
      rw [List.foldr_cons] at h ⊢
      obtain hle | hle := Nat.le_total a.ts (as.foldr (fun dcid res => min dcid.ts res) uint64Max)
      · rw [Nat.min_eq_left hle]
        exact ⟨a, List.mem_cons_self, rfl⟩
      · rw [Nat.min_eq_right hle] at h ⊢
        obtain ⟨d, hd, heq⟩ := ih h
        exact ⟨d, List.mem_cons_of_mem a hd, heq⟩

theorem retireStaleBoundDcid_quiet (hbound : ∀ d ∈ dtr.bound, d.ts ≠ uint64Max)
    (h : dtr.earliestBoundTs ≠ uint64Max → ts < dtr.earliestBoundTs + timeout) (hts : ts < uint64Max) :
    dtr.retireStaleBoundDcid timeout ts = .ok dtr := by
  apply retireStaleLoop_quiet
  intro d hd
  have hle := earliestBoundTs_le hd
  refine (tstampNotElapsed_iff hts).mpr ⟨hbound d hd, ?_⟩
  by_cases hnone : dtr.earliestBoundTs = uint64Max
  · omega
  · have := h hnone
    omega

theorem retireStaleBoundDcid_later (hts : ts < uint64Max) (hrun : dtr.retireStaleBoundDcid timeout ts = .ok dtr') :
    (dtr'.earliestBoundTs ≠ uint64Max → ts < dtr'.earliestBoundTs + timeout) ∧ dtr'.bound ⊆ dtr.bound ∧
      dtr'.retired = dtr.retired := by
  have hlen : dtr.bound.length = 0 + dtr.bound.length := (Nat.zero_add _).symm
  obtain ⟨hall, hsub, hretired⟩ := retireStaleLoop_spec hlen (fun d hd => by cases hd) hrun
  refine ⟨fun hne => ?_, hsub, hretired⟩
  obtain ⟨d, hd, heq⟩ := earliestBoundTs_mem hne
  rw [← heq]
  exact ((tstampNotElapsed_iff hts).mp (hall d hd)).2

theorem removeStaleRetiredDcid_quiet (hretired : ∀ d ∈ dtr.retired, d.ts ≠ uint64Max)
    (h : dtr.earliestRetiredTs ≠ uint64Max → ts < dtr.earliestRetiredTs + timeout) (hts : ts < uint64Max) :
    dtr.removeStaleRetiredDcid timeout ts = dtr := by
  rw [earliestRetiredTs] at h
  rw [removeStaleRetiredDcid]
  cases hr : dtr.retired with
  | nil => rw [List.dropWhile_nil, ← hr]
  | cons d ds =>
      have hne : d.ts ≠ uint64Max := hretired d (hr ▸ List.mem_cons_self)
      rw [hr] at h
      rw [List.dropWhile_cons_of_neg, ← hr]
      rw [(tstampNotElapsed_iff hts).mpr ⟨hne, h hne⟩]
      exact Bool.false_ne_true

theorem removeStaleRetiredDcid_later (dtr : Dcidtr) (hts : ts < uint64Max)
    (hne : (dtr.removeStaleRetiredDcid timeout ts).earliestRetiredTs ≠ uint64Max) :
    ts < (dtr.removeStaleRetiredDcid timeout ts).earliestRetiredTs + timeout := by
  rw [earliestRetiredTs, removeStaleRetiredDcid] at hne ⊢
  simp only at hne ⊢
  cases hr : dtr.retired.dropWhile fun dcid => !tstampNotElapsed dcid.ts timeout ts with
  | nil =>
      rw [hr] at hne
      exact absurd rfl hne
  | cons d ds =>
      have hhead := List.head?_dropWhile_not (fun dcid : Dcid => !tstampNotElapsed dcid.ts timeout ts) dtr.retired
      rw [hr, List.head?_cons] at hhead
      simp only [Bool.not_eq_false'] at hhead
      exact ((tstampNotElapsed_iff hts).mp hhead).2

end Dcidtr

section Scid

open ScidPool

variable {pool pool' : Pool} {pto : Nat}

theorem cid_mem_used {x : Scid} (h : x ∈ pool.usedScids) : x.cid ∈ pool.used := by
  obtain ⟨cid, hcid, hfind⟩ := List.mem_filterMap.mp h
  have heq := List.find?_some hfind
  rw [decide_eq_true_eq] at heq
  rw [heq]
  exact hcid

theorem removeLoop_quiet {n : Nat}
    (h : ∀ scid ∈ pqTop pool.usedScids, scid.retiredTs ≠ uint64Max → ts < scid.retiredTs + pto) :
    Pool.removeLoop pto ts n pool = .ok pool := by
  cases n with
  | zero => rfl
  | succ n =>
      rw [Pool.removeLoop]
      cases htop : pqTop pool.usedScids with
      | none => rfl
      | some scid =>
          simp only
          rw [tstampElapsed_eq_false]
          · rfl
          · by_cases hnone : scid.retiredTs = uint64Max
            · exact Or.inl hnone
            · exact Or.inr (h scid htop hnone)

/-- Each round takes an entry from `used`, so that the loop only ends at one whose time has not come. -/
theorem removeLoop_later {n : Nat} (hn : pool.used.length ≤ n) (hts : ts < uint64Max)
    (hrun : Pool.removeLoop pto ts n pool = .ok pool') :
    ∀ scid ∈ pqTop pool'.usedScids, scid.retiredTs ≠ uint64Max → ts < scid.retiredTs + pto := by
  induction n generalizing pool with
  | zero =>
      cases hrun
      intro scid hscid
      have hmem := cid_mem_used (pqTop_mem hscid)
      rw [List.length_eq_zero_iff.mp (Nat.le_zero.mp hn)] at hmem
      cases hmem
  | succ n ih =>
      rw [Pool.removeLoop] at hrun
      cases htop : pqTop pool.usedScids with
      | none =>
          rw [htop] at hrun
          cases hrun
          intro scid hscid
          rw [htop] at hscid
          cases hscid
      | some x =>
          rw [htop] at hrun
          simp only at hrun
          split_ifs at hrun with hearly
          · cases hrun
            intro scid hscid hne
            rw [htop] at hscid
            cases hscid
            rw [Bool.not_eq_true'] at hearly
            exact lt_of_not_elapsed hearly hne hts
          · refine ih ?_ hrun
            have hmem := cid_mem_used (pqTop_mem htop)
            have hlen := List.length_erase_of_mem hmem
            simp only [hlen]
            omega

end Scid

namespace Space

variable {s s' : Space} {pto : Nat}

theorem removeExpiredLostPkt_quiet (h : s.rtb.Inv) (ha : RtbTx.Aged ts s.rtb.rtb.ents) (hts : ts < uint64Max)
    (hlt : ts < s.lostPktExpiry pto) : s.removeExpiredLostPkt pto ts = .ok s := by
  have hlast : ∀ e ∈ s.rtb.rtb.ents.getLast?, e.lostRetransmitted = true → ts < e.lostTs + pto * 3 := by
    intro e he hlost
    have hle := ha.lostTs_le e (List.mem_of_getLast? he) hlost
    rw [lostPktExpiry, lostPktTs, he] at hlt
    simp only [hlost, if_true] at hlt
    rwa [if_pos (by omega)] at hlt
  rw [removeExpiredLostPkt, h.sound.removeExpired_quiet ha (Nat.lt_trans hts (by decide)) hlast]

theorem lt_lostPktExpiry (h : RtbTx.Fresh (pto * 3) ts s.rtb.rtb.ents) (hts : ts < uint64Max) : ts < s.lostPktExpiry pto := by
  rw [lostPktExpiry, lostPktTs]
  cases hlast : s.rtb.rtb.ents.getLast? with
  | none => exact hts
  | some e =>
      simp only
      split
      · rename_i hlost
        split
        · exact h e (List.mem_of_getLast? hlast) hlost
        · exact hts
      · exact hts

theorem removeExpiredLostPkt_step (h : s.removeExpiredLostPkt pto ts = .ok s') :
    s'.acktr = s.acktr ∧ s'.lossTime = s.lossTime ∧ s.rtb.step (.removeExpiredLostPkt (pto * 3) ts) = .ok s'.rtb := by
  rw [removeExpiredLostPkt] at h
  cases hrun : s.rtb.rtb.removeExpiredLostPkt (pto * 3) ts with
  | error stop =>
      rw [hrun] at h
      cases h
  | ok rtb =>
      rw [hrun] at h
      cases h
      refine ⟨rfl, rfl, ?_⟩
      rw [RtbTx.State.step, hrun]
      rfl

theorem removeExpiredLostPkt_fresh (h : s.rtb.Inv) (ha : RtbTx.Aged ts s.rtb.rtb.ents) (hts : ts < uint64Max)
    (hrun : s.removeExpiredLostPkt pto ts = .ok s') : RtbTx.Fresh (pto * 3) ts s'.rtb.rtb.ents := by
  obtain ⟨-, -, hstep⟩ := removeExpiredLostPkt_step hrun
  obtain ⟨rtb, hremove, hok⟩ := bind_ok hstep
  rw [Except.ok.injEq] at hok
  rw [← hok]
  exact h.sound.removeExpired_fresh ha (Nat.lt_trans hts (by decide)) hremove

end Space

theorem pmtud_handleExpiry_later {pmtud pmtud' : Pmtud} (hts : ts < uint64Max) (hrun : pmtud.handleExpiry ts = .ok pmtud') :
    ts < pmtud'.expiry := by
  rw [Pmtud.handleExpiry] at hrun
  split at hrun
  · rename_i hlt
    cases hrun
    exact hlt
  · simp only at hrun
    split at hrun
    · cases hrun
      exact hts
    · obtain ⟨p, -, hrun⟩ := bind_ok hrun
      rw [Pmtud.nextProbe] at hrun
      split at hrun
      · obtain ⟨i, -, hrun⟩ := bind_ok hrun
        cases hrun
        exact hts
      · cases hrun

end Zngtcp2.Timer
