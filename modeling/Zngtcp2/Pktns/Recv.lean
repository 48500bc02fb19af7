import Mathlib.Data.List.Nodup
import Zngtcp2.Lib.Run
import Zngtcp2.Pktns.Acktr
import Zngtcp2.Strm.Gaptr

namespace Zngtcp2.PktnsRx

open Gaptr Lib.Run
open Reorder (Range)

/-- `NGTCP2_MAX_PKT_NUM` -/
def maxPktNum : Nat :=
  2 ^ 62 - 1

/-- A packet number, at most `NGTCP2_MAX_PKT_NUM`. -/
abbrev PktNum := Fin (2 ^ 62)

/-- The receiving side of a packet number space. `committed` and `dropped` record the packet numbers
that were committed, and the gaps that were dropped. -/
structure Pktns where
  pngap : Gaps
  maxAckElicitingPktNum : Option Nat
  acktr : Acktr
  committed : List Nat
  dropped : List Range
  deriving DecidableEq, Repr

namespace Pktns

def new : Pktns :=
  ⟨[], none, .new, [], []⟩

variable (s : Pktns)

/-- `pktns_pkt_num_is_duplicate` -/
def pktNumIsDuplicate (pktNum : Nat) : Except Fault Bool :=
  isPushed s.pngap pktNum 1

/-- The packet number is entered into the gaps; the first one is dropped when there are too many. -/
def pushPktNum (pktNum : Nat) : Pktns :=
  let pngap := push s.pngap pktNum 1
  if 256 < pngap.length then
    { s with
      pngap := dropFirstGap pngap
      committed := pktNum :: s.committed
      dropped := pngap.head?.toList ++ s.dropped }
  else { s with pngap := pngap, committed := pktNum :: s.committed }

/-- The ack-eliciting packet does not follow the one with the largest number. -/
def outOfOrder (pktNum : Nat) : Except Fault Bool :=
  match s.maxAckElicitingPktNum with
  | none => .ok false
  | some largest =>
      if pktNum < largest then .ok true
      else if pktNum ≠ largest + 1 then
        match firstGapAfter s.pngap largest with
        | none => .error .assertion
        | some r => .ok (decide (r.begin < pktNum))
      else .ok false

/-- What `pktns_commit_recv_pkt_num` does for a packet that requires an ACK. -/
def requireAck (pktNum : Nat) : Except Fault Pktns := do
  let immediate ← s.outOfOrder pktNum
  .ok { s with
    maxAckElicitingPktNum := if s.maxAckElicitingPktNum.all (fun n => decide (n < pktNum)) then some pktNum else s.maxAckElicitingPktNum
    acktr := { s.acktr with immediateAck := s.acktr.immediateAck || immediate } }

/-- `pktns_commit_recv_pkt_num` -/
def commitRecvPktNum (pktNum : Nat) (ecn : Fin 4) (requireAck : Bool) (ts : Nat) : Except Fault (Rv × Pktns) := do
  let s := s.pushPktNum pktNum
  let s ← (if requireAck then s.requireAck pktNum else .ok s)
  let (rv, acktr) ← (s.acktr.increaseEcnCounts ecn).add pktNum requireAck ts
  if rv = .invalidArgument then .error .assertion else .ok (rv, { s with acktr := acktr })

end Pktns

inductive Input
  | recv (pktNum : PktNum) (ecn : Fin 4) (requireAck : Bool) (ts : Nat)
  | commitAck (pktNum largestAck : Nat)
  | recvAck (largestAck firstAckRange : Nat) (ranges : List AckRange)
  deriving DecidableEq, Repr

/-- A packet is committed if it is no duplicate. Between packets, ACK frames are sent and received. -/
def step (s : Pktns) : Input → Except Fault Pktns
  | .recv pktNum ecn requireAck ts => do
      let duplicate ← s.pktNumIsDuplicate pktNum
      if duplicate then .ok s
      else do
        let (_, s) ← s.commitRecvPktNum pktNum ecn requireAck ts
        .ok s
  | .commitAck pktNum largestAck => .ok { s with acktr := s.acktr.commitAck pktNum largestAck }
  | .recvAck largestAck firstAckRange ranges => do
      let acktr ← s.acktr.recvAck largestAck firstAckRange ranges
      .ok { s with acktr := acktr }

/-- The gaps are what was neither committed nor dropped. -/
structure Inv (s : Pktns) : Prop where
  sorted : Sorted s.pngap
  gaps : ∀ x, Mem (initialized s.pngap) x ↔ x < uint64Max ∧ x ∉ s.committed ∧ ∀ r ∈ s.dropped, ¬(r.begin ≤ x ∧ x < r.endOff)
  ends : ∀ k ∈ s.pngap, k.endOff ≤ maxPktNum ∨ k.endOff = uint64Max
  length : s.pngap.length ≤ 256
  nodup : s.committed.Nodup
  committed_le : ∀ x ∈ s.committed, x ≤ maxPktNum
  dropped_le : ∀ r ∈ s.dropped, r.endOff ≤ maxPktNum
  eliciting_le : ∀ n ∈ s.maxAckElicitingPktNum, n ≤ maxPktNum
  descending : Descending s.acktr.ents
  covered : ∀ x, Covered s.acktr.ents x → x ∈ s.committed

theorem new_inv : Inv Pktns.new := by
  refine ⟨⟨by simp [Pktns.new], by simp [Pktns.new]⟩, fun x => ?_, by simp [Pktns.new], Nat.zero_le _, List.nodup_nil, by simp [Pktns.new], by simp [Pktns.new],
    by simp [Pktns.new],     ⟨by simp [Pktns.new, Acktr.new], by simp [Pktns.new, Acktr.new]⟩, by simp [Pktns.new, Acktr.new, Covered]⟩
  rw [show Pktns.new.pngap = [] from rfl, mem_initialized_nil]
  simp [Pktns.new]

/-- The numbers above `NGTCP2_MAX_PKT_NUM` remain in the last gap. -/
theorem Inv.last {s : Pktns} (h : Inv s) : Mem (initialized s.pngap) (maxPktNum + 1) := by
  refine (h.gaps _).mpr ⟨by decide, fun hmem => ?_, fun r hr hin => ?_⟩
  · have := h.committed_le _ hmem
    omega
  · have := h.dropped_le r hr
    omega

theorem Inv.isDuplicate {s : Pktns} (h : Inv s) {pktNum : Nat} (hle : pktNum ≤ maxPktNum) :
    ∃ b, s.pktNumIsDuplicate pktNum = .ok b ∧
      (b = false ↔ pktNum ∉ s.committed ∧ ∀ r ∈ s.dropped, ¬(r.begin ≤ pktNum ∧ pktNum < r.endOff)) := by
  obtain ⟨b, hb, hiff⟩ := isPushed_one h.sorted h.last (Nat.le_succ_of_le hle)
  refine ⟨b, hb, ?_⟩
  rw [hiff, h.gaps]
  have hlt : pktNum < uint64Max := Nat.lt_of_le_of_lt hle (by decide)
  exact ⟨fun h => h.2, fun h => ⟨hlt, h⟩⟩

theorem push_one_mem {s : Pktns} (h : Inv s) {pktNum x : Nat} :
    Mem (push s.pngap pktNum 1) x ↔
      x < uint64Max ∧ x ∉ pktNum :: s.committed ∧ ∀ r ∈ s.dropped, ¬(r.begin ≤ x ∧ x < r.endOff) := by
  rw [mem_push h.sorted, h.gaps, List.mem_cons, not_or]
  constructor
  · rintro ⟨⟨hlt, hnot, hdropped⟩, hout⟩
    exact ⟨hlt, ⟨by omega, hnot⟩, hdropped⟩
  · rintro ⟨hlt, ⟨hne, hnot⟩, hdropped⟩
    exact ⟨⟨hlt, hnot, hdropped⟩, by omega⟩

/-- Committing a packet number that is no duplicate keeps the gaps in order. -/
theorem Inv.pushPktNum {s : Pktns} (h : Inv s) {pktNum : Nat} (hle : pktNum ≤ maxPktNum) (hnew : pktNum ∉ s.committed) :
    Inv (s.pushPktNum pktNum) := by
  have hsorted := push_sorted h.sorted pktNum 1
  have hmem := @push_one_mem s h pktNum
  have hinit : (initialized s.pngap).length ≤ 256 := by
    rw [initialized]
    split
    · decide
    · exact h.length
  have hlen := push_one_length h.sorted pktNum
  have hends : ∀ k ∈ push s.pngap pktNum 1, k.endOff ≤ maxPktNum ∨ k.endOff = uint64Max := by
    intro k hk
    rcases push_ends hk with hend | ⟨k', hk', hend⟩
    · exact Or.inl (hend ▸ hle)
    · rw [hend]
      rw [initialized] at hk'
      split at hk'
      · rw [List.mem_singleton.mp hk']
        exact Or.inr rfl
      · exact h.ends k' hk'
  have hnodup : (pktNum :: s.committed).Nodup := List.nodup_cons.mpr ⟨hnew, h.nodup⟩
  have hcommitted : ∀ x ∈ pktNum :: s.committed, x ≤ maxPktNum := List.forall_mem_cons.mpr ⟨hle, h.committed_le⟩
  have hcovered : ∀ x, Covered s.acktr.ents x → x ∈ pktNum :: s.committed :=
    fun x hx => List.mem_cons_of_mem pktNum (h.covered x hx)
  rw [Pktns.pushPktNum]
  generalize push s.pngap pktNum 1 = pngap at *
  have hne : pngap ≠ [] := by
    have hlast : Mem pngap (maxPktNum + 1) := by
      obtain ⟨hlt, hnot, hdropped⟩ := (h.gaps _).mp h.last
      refine hmem.mpr ⟨hlt, fun hin => ?_, hdropped⟩
      rcases List.mem_cons.mp hin with heq | hin
      · omega
      · exact hnot hin
    exact hlast.ne_nil
  split
  · rename_i hmany
    cases pngap with
    | nil => exact absurd rfl hne
    | cons r ks =>
        have hks : ks ≠ [] := by
          rintro rfl
          simp at hmany
        have hr : r.endOff ≤ maxPktNum := by
          cases ks with
          | nil => exact absurd rfl hks
          | cons j js =>
              have hrj := (List.pairwise_cons.mp hsorted.pairwise).1 j List.mem_cons_self
              have hj := hsorted.lt j (by simp)
              have hend := hends r List.mem_cons_self
              have hjend := hends j (by simp)
              have hmax : maxPktNum ≤ uint64Max := by decide
              omega
        refine ⟨hsorted.tail, fun x => ?_, fun k hk => hends k (List.mem_cons_of_mem r hk), ?_, hnodup, hcommitted, ?_, h.eliciting_le, h.descending, hcovered⟩
        · change Mem (initialized ks) x ↔ _
          have htail := @mem_tail r ks hsorted x
          rw [dropFirstGap, List.tail_cons] at htail
          rw [mem_of_mem_initialized hks, htail, hmem, List.head?_cons, Option.toList_some, List.singleton_append,
            List.forall_mem_cons]
          tauto
        · change ks.length ≤ 256
          rw [List.length_cons] at hlen
          omega
        · exact List.forall_mem_cons.mpr ⟨hr, h.dropped_le⟩
  · refine ⟨hsorted, fun x => ?_, hends, Nat.le_of_not_lt (by assumption), hnodup, hcommitted, h.dropped_le, h.eliciting_le, h.descending, hcovered⟩
    rw [mem_of_mem_initialized hne]
    exact hmem

theorem Inv.outOfOrder {s : Pktns} (h : Inv s) (pktNum : Nat) : ∃ b, s.outOfOrder pktNum = .ok b := by
  rw [Pktns.outOfOrder]
  cases hlargest : s.maxAckElicitingPktNum with
  | none => exact ⟨false, rfl⟩
  | some largest =>
      simp only
      split
      · exact ⟨true, rfl⟩
      · split
        · have hle := h.eliciting_le largest hlargest
          obtain ⟨k, hk, _⟩ := firstGapAfter_spec (sorted_initialized h.sorted) h.last (Nat.le_succ_of_le hle)
          rw [firstGapAfter_initialized] at hk
          rw [hk]
          exact ⟨_, rfl⟩
        · exact ⟨false, rfl⟩

/-- Only the ACK tracker changes, and it does not get to know more. -/
theorem Inv.acktr {s : Pktns} (h : Inv s) {acktr : Acktr} (hdesc : Descending acktr.ents)
    (hcov : ∀ x, Covered acktr.ents x → x ∈ s.committed) : Inv { s with acktr := acktr } :=
  ⟨h.sorted, h.gaps, h.ends, h.length, h.nodup, h.committed_le, h.dropped_le, h.eliciting_le, hdesc, hcov⟩

theorem Inv.requireAck {s : Pktns} (h : Inv s) {pktNum : Nat} (hle : pktNum ≤ maxPktNum) :
    ∃ s', s.requireAck pktNum = .ok s' ∧ Inv s' ∧ s'.acktr.ents = s.acktr.ents ∧ s'.committed = s.committed := by
  obtain ⟨b, hb⟩ := h.outOfOrder pktNum
  rw [Pktns.requireAck, hb]
  refine ⟨_, rfl, ⟨h.sorted, h.gaps, h.ends, h.length, h.nodup, h.committed_le, h.dropped_le, ?_, h.descending, h.covered⟩, rfl, rfl⟩
  intro n hn
  simp only at hn
  split at hn
  · cases hn
    exact hle
  · exact h.eliciting_le n hn

theorem pushPktNum_committed (s : Pktns) (pktNum : Nat) :
    (s.pushPktNum pktNum).committed = pktNum :: s.committed ∧ (s.pushPktNum pktNum).acktr = s.acktr := by
  rw [Pktns.pushPktNum]
  split
  · exact ⟨rfl, rfl⟩
  · exact ⟨rfl, rfl⟩

theorem increaseEcnCounts_ents (a : Acktr) (ecn : Fin 4) : (a.increaseEcnCounts ecn).ents = a.ents := by
  unfold Acktr.increaseEcnCounts
  split
  all_goals rfl

/-- A packet number that is no duplicate is committed: `ngtcp2_acktr_add` returns 0. -/
theorem Inv.commitRecvPktNum {s : Pktns} (h : Inv s) {pktNum : Nat} (hle : pktNum ≤ maxPktNum) (hnew : pktNum ∉ s.committed)
    (ecn : Fin 4) (requireAck : Bool) (ts : Nat) :
    ∃ s', s.commitRecvPktNum pktNum ecn requireAck ts = .ok (.ok, s') ∧ Inv s' ∧ s'.committed = pktNum :: s.committed := by
  obtain ⟨hcommitted, hacktr⟩ := pushPktNum_committed s pktNum
  have hpushed := h.pushPktNum hle hnew
  obtain ⟨s₁, hs₁, hinv, hents, hcommitted₁⟩ : ∃ s₁,
      (if requireAck then (s.pushPktNum pktNum).requireAck pktNum else .ok (s.pushPktNum pktNum)) = .ok s₁ ∧ Inv s₁ ∧
        s₁.acktr.ents = s.acktr.ents ∧ s₁.committed = pktNum :: s.committed := by
    rw [← hcommitted, ← hacktr]
    split
    · exact hpushed.requireAck hle
    · exact ⟨_, rfl, hpushed, rfl, rfl⟩
  have hnot : ¬Covered s.acktr.ents pktNum := fun hcov => hnew (h.covered pktNum hcov)
  have hdesc := h.descending
  rw [← hents, ← increaseEcnCounts_ents _ ecn] at hnot hdesc
  obtain ⟨acktr, hadd, hdesc', hcov⟩ := @Acktr.add_ok _ _ ts requireAck hdesc hnot
  rw [Pktns.commitRecvPktNum, hs₁]
  simp only [bind, Except.bind, hadd]
  refine ⟨_, rfl, hinv.acktr hdesc' (fun x hx => ?_), hcommitted₁⟩
  rw [hcommitted₁]
  rcases hcov x hx with rfl | hx
  · exact List.mem_cons_self
  · rw [increaseEcnCounts_ents, hents] at hx
    exact List.mem_cons_of_mem _ (h.covered x hx)

theorem step_inv (s : Pktns) (input : Input) (h : Inv s) : ∃ s', step s input = .ok s' ∧ Inv s' := by
  cases input with
  | recv pktNum ecn requireAck ts =>
      have hle : pktNum.val ≤ maxPktNum := Nat.le_sub_one_of_lt pktNum.isLt
      obtain ⟨b, hb, hiff⟩ := h.isDuplicate hle
      rw [step, hb]
      cases b with
      | true => exact ⟨s, rfl, h⟩
      | false =>
          obtain ⟨s', hs', hinv, _⟩ := h.commitRecvPktNum hle (hiff.mp rfl).1 ecn requireAck ts
          simp only [bind, Except.bind, hs']
          exact ⟨s', rfl, hinv⟩
  | commitAck pktNum largestAck => exact ⟨_, rfl, h.acktr h.descending h.covered⟩
  | recvAck largestAck firstAckRange ranges =>
      obtain ⟨acktr, hack, hdesc, hcov⟩ := @Acktr.recvAck_ok _ largestAck firstAckRange ranges h.descending
      rw [step, hack]
      exact ⟨_, rfl, h.acktr hdesc (fun x hx => h.covered x (hcov x hx))⟩

/-- What the packets received so far guarantee. -/
structure NoReplay (s : Pktns) : Prop where
  once : s.committed.Nodup
  length : s.pngap.length ≤ 256
  duplicate : ∀ pktNum : PktNum, ∃ b, s.pktNumIsDuplicate pktNum = .ok b ∧
    (pktNum.val ∈ s.committed → b = true) ∧
    (b = true → pktNum.val ∉ s.committed → ∃ r ∈ s.dropped, r.begin ≤ pktNum ∧ pktNum < r.endOff)
  commits : ∀ (pktNum : PktNum) (ecn : Fin 4) (requireAck : Bool) (ts : Nat), s.pktNumIsDuplicate pktNum = .ok false →
    ∃ s', s.commitRecvPktNum pktNum ecn requireAck ts = .ok (.ok, s') ∧ s'.committed = pktNum.val :: s.committed

theorem Inv.noReplay {s : Pktns} (h : Inv s) : NoReplay s := by
  refine ⟨h.nodup, h.length, fun pktNum => ?_, fun pktNum ecn requireAck ts hdup => ?_⟩
  · obtain ⟨b, hb, hiff⟩ := h.isDuplicate (Nat.le_sub_one_of_lt pktNum.isLt)
    refine ⟨b, hb, fun hmem => ?_, fun htrue hnot => ?_⟩
    · cases b with
      | true => rfl
      | false => exact absurd hmem (hiff.mp rfl).1
    · by_contra hnone
      rw [htrue] at hiff
      refine absurd (hiff.mpr ⟨hnot, fun r hr hin => hnone ⟨r, hr, hin⟩⟩) (by decide)
  · obtain ⟨b, hb, hiff⟩ := h.isDuplicate (Nat.le_sub_one_of_lt pktNum.isLt)
    rw [hb, Except.ok.injEq] at hdup
    obtain ⟨s', hs', _, hcommitted⟩ := h.commitRecvPktNum (Nat.le_sub_one_of_lt pktNum.isLt) (hiff.mp hdup).1 ecn requireAck ts
    exact ⟨s', hs', hcommitted⟩

/-- For every sequence of received packet numbers no assertion fails, and in the state reached no
packet number was committed twice. -/
theorem run_noReplay (inputs : List Input) : ∃ s, run step Pktns.new inputs = .ok s ∧ NoReplay s := by
  obtain ⟨s, hrun, hinv⟩ := @run_invariant _ _ _ step (fun _ _ => True) Inv (fun s i h _ => step_inv s i h) _ new_inv
    inputs (guarded_of_forall (fun _ _ _ => trivial) Pktns.new)
  exact ⟨s, hrun, hinv.noReplay⟩

end Zngtcp2.PktnsRx
