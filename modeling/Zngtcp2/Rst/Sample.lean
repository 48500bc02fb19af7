import Zngtcp2.Rst.Model

namespace Zngtcp2.RateSample

open Lib.Run Lib.Word RtbTx
open PktnsRx (AckFrame)
open RtbTx.Counters (InStep)

/-- The sample is taken from the packet that was sent at `sentTs` and acknowledged at `ts`. -/
structure Samples (rs : Rs) (snap : Snapshot) (sentTs ts : Nat) : Prop where
  priorDelivered : rs.priorDelivered = snap.delivered
  priorTs : rs.priorTs = snap.deliveredTs
  isAppLimited : rs.isAppLimited = snap.isAppLimited
  lastAckedPktId : rs.lastAckedPktId = snap.pktId
  sendElapsed : snap.firstSentTs + rs.sendElapsed = sentTs
  ackElapsed : snap.deliveredTs + rs.ackElapsed = ts

/-- How the acknowledgement of `bytes` at `ts` moves the state on; the last two fields are never written. -/
structure Advanced (rst rst' : Rst) (bytes ts : Nat) : Prop where
  delivered : rst'.delivered = rst.delivered + bytes
  deliveredTs : rst.deliveredTs ≤ ts → rst'.deliveredTs ≤ ts
  firstSentTs : rst.firstSentTs ≤ ts → rst'.firstSentTs ≤ ts
  pktId : rst'.pktId = rst.pktId
  txInFlight : rst'.rs.txInFlight = rst.rs.txInFlight
  lost : rst'.rs.lost = rst.rs.lost

theorem Advanced.refl (rst : Rst) (ts : Nat) : Advanced rst rst 0 ts :=
  ⟨rfl, id, id, rfl, rfl, rfl⟩

theorem Advanced.trans {rst rst' rst'' : Rst} {bytes bytes' ts : Nat} (h : Advanced rst rst' bytes ts)
    (h' : Advanced rst' rst'' bytes' ts) : Advanced rst rst'' (bytes + bytes') ts := by
  refine ⟨?_, h'.deliveredTs ∘ h.deliveredTs, h'.firstSentTs ∘ h.firstSentTs, h'.pktId.trans h.pktId,
    h'.txInFlight.trans h.txInFlight, h'.lost.trans h.lost⟩
  rw [h'.delivered, h.delivered, Nat.add_assoc]

/-- What a snapshot says lies in the past of its packet, and of the acknowledgement. -/
structure Past (snap : Snapshot) (sentTs delivered ts : Nat) : Prop where
  delivered : snap.delivered ≤ delivered
  deliveredTs : snap.deliveredTs ≤ ts
  firstSentTs : snap.firstSentTs ≤ sentTs
  sentTs : sentTs ≤ ts

/-- What sending a packet at `ts` leaves, and notes of the packet. -/
structure Notes (rst rst' : Rst) (snap : Snapshot) (ts : Nat) : Prop where
  delivered : rst'.delivered = rst.delivered
  pktId : rst'.pktId = rst.pktId + 1
  deliveredTs : rst'.deliveredTs ≤ ts
  firstSentTs : rst'.firstSentTs ≤ ts
  rs : rst'.rs = rst.rs
  past : Past snap ts rst.delivered ts
  snapDelivered : snap.delivered = rst.delivered
  snapPktId : snap.pktId = rst.pktId + 1

theorem minus_of_le {a b : Nat} (h : b ≤ a) : minus a b = .ok (a - b) := by
  rw [minus, diff_of_le h]

namespace Rst

theorem onPktSent_notes {rst : Rst} {e : Entry} (bytesInFlight : Nat) (hdelivered : rst.deliveredTs ≤ e.ts)
    (hfirst : rst.firstSentTs ≤ e.ts) :
    Notes rst (rst.onPktSent e bytesInFlight).1 (rst.onPktSent e bytesInFlight).2 e.ts := by
  rw [onPktSent]
  split
  · exact ⟨rfl, rfl, Nat.le_refl _, Nat.le_refl _, rfl, ⟨Nat.le_refl _, Nat.le_refl _, Nat.le_refl _, Nat.le_refl _⟩, rfl, rfl⟩
  · exact ⟨rfl, rfl, hdelivered, hfirst, rfl, ⟨Nat.le_refl _, hdelivered, hfirst, Nat.le_refl _⟩, rfl, rfl⟩

theorem updateRateSample_spec {rst : Rst} {e : Entry} {snap : Snapshot} {ts : Nat} (hpast : Past snap e.ts rst.delivered ts)
    (hnew : rst.rs.priorTs = uint64Max ∨ rst.rs.lastAckedPktId < snap.pktId) :
    ∃ rst', rst.updateRateSample e snap ts = .ok rst' ∧ Samples rst'.rs snap e.ts ts ∧ Advanced rst rst' e.pktlen ts := by
  rw [updateRateSample]
  simp only
  rw [if_pos hnew, minus_of_le hpast.firstSentTs, minus_of_le hpast.deliveredTs]
  refine ⟨_, rfl, ⟨rfl, rfl, rfl, rfl, ?_, ?_⟩, ⟨rfl, fun _ => Nat.le_refl ts, fun _ => hpast.sentTs, rfl, rfl, rfl⟩⟩
  · exact Nat.add_sub_cancel' hpast.firstSentTs
  · exact Nat.add_sub_cancel' hpast.deliveredTs

/-- The rate is computed from the sample, which stays as it is but for what was delivered. -/
theorem onAckRecv_spec {rst : Rst} {stat : Stat} {snap : Snapshot} {sentTs ts : Nat} (hs : Samples rst.rs snap sentTs ts)
    (hts : snap.deliveredTs ≠ uint64Max) (hle : snap.delivered ≤ rst.delivered) :
    ∃ rst' stat', rst.onAckRecv stat = .ok (rst', stat') ∧ Samples rst'.rs snap sentTs ts ∧
      rst'.rs.delivered + snap.delivered = rst.delivered ∧ Advanced rst rst' 0 ts := by
  rw [onAckRecv]
  have hlimited : (if rst.appLimited ≠ 0 ∧ rst.delivered > rst.appLimited then { rst with appLimited := 0 } else rst) =
      { rst with appLimited := if rst.appLimited ≠ 0 ∧ rst.delivered > rst.appLimited then 0 else rst.appLimited } := by
    split <;> rfl
  have hprior : rst.rs.priorDelivered ≤ rst.delivered := by
    rw [hs.priorDelivered]
    exact hle
  rw [hlimited]
  simp only
  rw [if_neg (hs.priorTs ▸ hts), minus_of_le hprior]
  simp only [bind, Except.bind]
  have hdelivered : rst.delivered - rst.rs.priorDelivered + snap.delivered = rst.delivered := by
    rw [← hs.priorDelivered]
    exact Nat.sub_add_cancel hprior
  split_ifs <;> exact ⟨_, _, rfl, ⟨hs.priorDelivered, hs.priorTs, hs.isAppLimited, hs.lastAckedPktId, hs.sendElapsed, hs.ackElapsed⟩,
    hdelivered, ⟨rfl, id, id, rfl, rfl, rfl⟩⟩

end Rst

/-- The entries that count for congestion control. -/
def counted (ccPktNum : Int) (es : List Entry) : List Entry :=
  es.filter (ccPktNum ≤ ·.pktNum)

section Process

variable {ccPktNum : Int} {snaps : Int → Snapshot} {ts : Nat}

theorem counted_cons_pos {e : Entry} {es : List Entry} (h : ccPktNum ≤ e.pktNum) :
    counted ccPktNum (e :: es) = e :: counted ccPktNum es :=
  List.filter_cons_of_pos (decide_eq_true h)

theorem counted_cons_neg {e : Entry} {es : List Entry} (h : ¬ ccPktNum ≤ e.pktNum) :
    counted ccPktNum (e :: es) = counted ccPktNum es :=
  List.filter_cons_of_neg (by simpa using h)

/-- The packet was sent before the other one, and no more was delivered then. -/
def Earlier (snaps : Int → Snapshot) (a b : Entry) : Prop :=
  (snaps a.pktNum).pktId < (snaps b.pktNum).pktId ∧ (snaps a.pktNum).delivered ≤ (snaps b.pktNum).delivered

theorem processAcked_uncounted {es : List Entry} (h : counted ccPktNum es = []) (pktDelivered numAcked : Nat) (rst : Rst) :
    processAcked ccPktNum snaps ts pktDelivered numAcked rst es = .ok (rst, numAcked) := by
  induction es with
  | nil => rfl
  | cons e es ih =>
      have hcc : ¬ ccPktNum ≤ e.pktNum := by
        intro hcc
        rw [counted_cons_pos hcc] at h
        cases h
      rw [counted_cons_neg hcc] at h
      rw [processAcked, if_neg hcc, ih h]

/-- The packets are processed in the order of their numbers, so that the sample is at last that of the newest one. -/
theorem processAcked_spec {es : List Entry} {rst : Rst} {pktDelivered : Nat}
    (hpast : ∀ e ∈ counted ccPktNum es, Past (snaps e.pktNum) e.ts rst.delivered ts)
    (hsent : (counted ccPktNum es).Pairwise (Earlier snaps))
    (hdelivered : ∀ e ∈ counted ccPktNum es, pktDelivered ≤ (snaps e.pktNum).delivered)
    (hnew : rst.rs.priorTs = uint64Max ∨ ∀ e ∈ counted ccPktNum es, rst.rs.lastAckedPktId < (snaps e.pktNum).pktId)
    (numAcked : Nat) :
    ∃ rst', processAcked ccPktNum snaps ts pktDelivered numAcked rst es = .ok (rst', numAcked + (counted ccPktNum es).length) ∧
      Advanced rst rst' (Rtb.deliveredBytes ccPktNum es) ts ∧
      ∀ p, (counted ccPktNum es).getLast? = some p → Samples rst'.rs (snaps p.pktNum) p.ts ts := by
  induction es generalizing rst pktDelivered numAcked with
  | nil => exact ⟨rst, rfl, Advanced.refl rst ts, fun p hp => by cases hp⟩
  | cons e es ih =>
      rw [processAcked, Rtb.deliveredBytes_cons]
      by_cases hcc : ccPktNum ≤ e.pktNum
      · rw [counted_cons_pos hcc] at hpast hsent hdelivered hnew ⊢
        obtain ⟨hpaste, hpast⟩ := List.forall_mem_cons.mp hpast
        obtain ⟨hfirst, hsent⟩ := List.pairwise_cons.mp hsent
        have hnewest : rst.rs.priorTs = uint64Max ∨ rst.rs.lastAckedPktId < (snaps e.pktNum).pktId :=
          hnew.imp_right fun h => h e List.mem_cons_self
        obtain ⟨rst₁, hupdate, hsample, hadv⟩ := Rst.updateRateSample_spec hpaste hnewest
        have hpast₁ : ∀ a ∈ counted ccPktNum es, Past (snaps a.pktNum) a.ts rst₁.delivered ts := fun a ha =>
          ⟨hadv.delivered ▸ Nat.le_add_right_of_le (hpast a ha).delivered, (hpast a ha).deliveredTs,
            (hpast a ha).firstSentTs, (hpast a ha).sentTs⟩
        have hnew₁ : ∀ a ∈ counted ccPktNum es, rst₁.rs.lastAckedPktId < (snaps a.pktNum).pktId := fun a ha =>
          hsample.lastAckedPktId ▸ (hfirst a ha).1
        obtain ⟨rst', hrun, hadv', hlast⟩ :=
          ih hpast₁ hsent (fun a ha => (hfirst a ha).2) (Or.inr hnew₁) (numAcked + 1)
        rw [if_pos hcc, if_neg (Nat.not_lt.mpr (hdelivered e List.mem_cons_self)), if_pos hcc, hupdate]
        simp only [bind, Except.bind]
        refine ⟨rst', ?_, hadv.trans hadv', fun p hp => ?_⟩
        · rw [hrun, List.length_cons, Nat.add_assoc, Nat.add_comm 1]
        · cases hcounted : counted ccPktNum es with
          | nil =>
              rw [hcounted] at hp
              rw [processAcked_uncounted hcounted] at hrun
              cases hp
              obtain ⟨rfl, -⟩ := Prod.mk.inj (Except.ok.inj hrun)
              exact hsample
          | cons a as =>
              apply hlast
              rw [hcounted] at hp ⊢
              rw [← hp, List.getLast?_cons_cons]
      · rw [counted_cons_neg hcc] at hpast hsent hdelivered hnew ⊢
        rw [if_neg hcc, if_neg hcc, Nat.zero_add]
        exact ih hpast hsent hdelivered hnew numAcked

end Process

theorem lift_ok {α : Type} {x : Except Strm.Stop α} {a : α} (h : lift x = .ok a) : x = .ok a := by
  cases x with
  | ok b =>
      cases h
      rfl
  | error stop => cases h

theorem lift_ends {α : Type} {P : α → Prop} {x : Except Strm.Stop α} (h : ∀ a, x = .ok a → P a) :
    Ends (fun stop => stop ≠ RateStop.wrap) P (lift x) := by
  cases x with
  | ok a => exact h a rfl
  | error stop => exact fun heq => by cases heq

/-- Exactly the acknowledged entries are taken out, the newest one comes last. -/
theorem takeOut_spec {r r' : Rtb} {fr : AckFrame} {es : List Entry} (h : r.Sound) (hrun : takeOut r fr = .ok (r', es)) :
    es = (r.acked fr).reverse ∧ (∀ e ∈ r.acked fr, e.sent.skip = false) ∧ Rtb.Pruned r r' ∧
      InStep r.counters r'.counters := by
  have h₀ : Rtb.Sound { r with largestAckedTxPktNum := max r.largestAckedTxPktNum fr.largestAck } := ⟨h.counts, h.ordered⟩
  rw [takeOut] at hrun
  simp only at hrun
  split at hrun
  · rename_i hend
    cases hrun
    have hnone := Rtb.Took.none h₀ (Rtb.acked_eq_nil hend)
    have hnil : r.acked fr = [] := hnone.acked.symm
    rw [hnil]
    exact ⟨rfl, List.forall_mem_nil _, h.pruned h.counts (List.Sublist.refl _) rfl, .refl _⟩
  · obtain ⟨⟨r₁, acked₁⟩, hrange, hrun⟩ := bind_ok hrun
    obtain ⟨⟨r₂, acked₂⟩, hranges, hrun⟩ := bind_ok hrun
    cases hrun
    have htook := Rtb.ackRange_ranges_took h₀ fr
    rw [hrange] at htook
    simp only [bind, Except.bind] at htook
    rw [hranges] at htook
    have hacked : acked₁ ++ acked₂ = r.acked fr := htook.acked
    have hents : r₂.ents = r.ents.filter (!covers fr ·.pktNum) := htook.ents
    rw [hacked]
    refine ⟨rfl, fun e he => ?_, ?_, ?_⟩
    · obtain ⟨hmem, hcovers⟩ := List.mem_filter.mp he
      exact htook.unskipped e hmem hcovers
    · refine h.pruned htook.sound.counts ?_ htook.ccPktNum
      rw [hents]
      exact List.filter_sublist
    · have hfirst := Rtb.ackRange_inStep hrange
      exact hfirst.trans (Rtb.ackRanges_inStep hranges)

/-- What a received ACK frame leaves: fewer entries, and the sample of the newest packet that counts. -/
structure Sampled (r : Rtb) (rst : Rst) (snaps : Int → Snapshot) (fr : AckFrame) (ts : Nat) (res : Received) : Prop where
  kept : Rtb.Kept r res.rtb
  descends : Rtb.Descends r res.rtb
  inStep : InStep r.counters res.rtb.counters
  unskipped : ∀ e ∈ r.acked fr, e.sent.skip = false
  advanced : Advanced rst res.rst (Rtb.deliveredBytes r.ccPktNum (r.acked fr)) ts
  newest : ∀ p, (counted r.ccPktNum (r.acked fr)).head? = some p → Samples res.rst.rs (snaps p.pktNum) p.ts ts ∧
    res.rst.rs.delivered + (snaps p.pktNum).delivered = res.rst.delivered

theorem detectLostPkt_kept {r r' : Rtb} {l : Loss} {n : Nat} (h : r.Sound) (hrun : r.detectLostPkt l = .ok (r', n)) :
    Rtb.Kept r r' ∧ Rtb.Descends r r' ∧ InStep r.counters r'.counters := by
  obtain ⟨r₁, n₁, hok, hkept⟩ := h.detectLostPkt l
  rw [hrun] at hok
  cases hok
  exact ⟨hkept, Rtb.detectLostPkt_descends hrun, Rtb.detectLostPkt_inStep hrun⟩

theorem counted_reverse (ccPktNum : Int) (es : List Entry) : counted ccPktNum es.reverse = (counted ccPktNum es).reverse :=
  List.filter_reverse

/-- The subtractions do not wrap around, if every packet that counts was sent before the later ones. -/
theorem recvAck_spec {r : Rtb} {rst : Rst} {stat : Stat} {snaps : Int → Snapshot} {fr : AckFrame} {l : Loss} (h : r.Sound)
    (hpast : ∀ e ∈ counted r.ccPktNum r.ents, Past (snaps e.pktNum) e.ts rst.delivered l.ts)
    (hsent : (counted r.ccPktNum r.ents).Pairwise fun a b => Earlier snaps b a) (hts : l.ts < uint64Max) :
    Ends (fun stop => stop ≠ RateStop.wrap) (Sampled r rst snaps fr l.ts) (recvAck r rst stat snaps fr l) := by
  rw [recvAck, Rst.resetRateSample]
  apply Ends.bind (lift_ends (fun _ hrun => takeOut_spec h hrun))
  rintro ⟨r₁, es⟩ ⟨rfl, hunskipped, hpruned, hinStep⟩
  have hsub : (counted r.ccPktNum (r.acked fr)).Sublist (counted r.ccPktNum r.ents) := List.Sublist.filter _ List.filter_sublist
  have hreverse : ∀ e ∈ counted r.ccPktNum (r.acked fr).reverse, e ∈ counted r.ccPktNum r.ents := by
    intro e he
    rw [counted_reverse] at he
    exact hsub.subset (List.mem_reverse.mp he)
  have hasc : (counted r.ccPktNum (r.acked fr).reverse).Pairwise (Earlier snaps) := by
    rw [counted_reverse]
    exact List.pairwise_reverse.mpr (hsent.sublist hsub)
  simp only
  rw [hpruned.ccPktNum]
  have hpast₀ : ∀ e ∈ counted r.ccPktNum (r.acked fr).reverse, Past (snaps e.pktNum) e.ts
      (Rst.delivered { rst with rs := { rst.rs with interval := uint64Max, priorTs := uint64Max } }) l.ts :=
    fun e he => hpast e (hreverse e he)
  obtain ⟨rst₁, hrun, hadv, hlast⟩ := processAcked_spec hpast₀ hasc (fun e _ => Nat.zero_le _) (Or.inl rfl) 0
  rw [hrun]
  rw [Rtb.deliveredBytes_reverse] at hadv
  rw [counted_reverse, List.getLast?_reverse] at hlast
  rw [counted_reverse, List.length_reverse, Nat.zero_add]
  simp only [bind, Except.bind]
  have hadv₁ : Advanced rst rst₁ (Rtb.deliveredBytes r.ccPktNum (r.acked fr)) l.ts :=
    ⟨hadv.delivered, hadv.deliveredTs, hadv.firstSentTs, hadv.pktId, hadv.txInFlight, hadv.lost⟩
  cases hcounted : counted r.ccPktNum (r.acked fr) with
  | nil =>
      exact ⟨hpruned.toKept, hpruned.descends, hinStep, hunskipped, hadv₁, fun p hp => by rw [hcounted] at hp; cases hp⟩
  | cons p ps =>
      have hpmem : p ∈ counted r.ccPktNum r.ents := hsub.subset (hcounted ▸ List.mem_cons_self)
      have hp := hpast p hpmem
      have hsample := hlast p (by rw [hcounted]; rfl)
      obtain ⟨rst₂, stat₂, hrate, hsample₂, hdelivered, hadv₂⟩ := @Rst.onAckRecv_spec _ { stat with deliveryRateSec := 0 } _ _ _
        hsample (Nat.ne_of_lt (Nat.lt_of_le_of_lt hp.deliveredTs hts))
        (hadv₁.delivered ▸ Nat.le_add_right_of_le hp.delivered)
      rw [if_neg (by simp), hrate]
      apply Ends.bind (lift_ends fun _ hdetect => detectLostPkt_kept hpruned.sound hdetect)
      rintro ⟨r₂, lost⟩ ⟨hkept, hdescends, hinStep₂⟩
      refine ⟨hpruned.toKept.trans hkept, hpruned.descends.trans hdescends, hinStep.trans hinStep₂, hunskipped, ?_, ?_⟩
      · have hadv := hadv₁.trans hadv₂
        exact ⟨hadv.delivered, hadv.deliveredTs, hadv.firstSentTs, hadv.pktId, hadv.txInFlight, hadv.lost⟩
      · intro q hq
        rw [hcounted] at hq
        cases hq
        refine ⟨hsample₂, ?_⟩
        have heq : rst₂.delivered = rst₁.delivered := hadv₂.delivered
        exact hdelivered.trans heq.symm

end Zngtcp2.RateSample
