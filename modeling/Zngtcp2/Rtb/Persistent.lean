import Zngtcp2.Rtb.AckRuns
import Zngtcp2.Rtb.Detect

namespace Zngtcp2.RtbTx

open Lib.Run PktnsRx
open Strm (Stop)
open Pkt (PktType)

/-- The entries at the front that carry on the packet numbers below `pktNum`, and were sent since `startTs`. -/
def stretch (startTs : Nat) : Int → List Entry → List Entry
  | _, [] => []
  | pktNum, e :: es => if pktNum = e.pktNum + 1 ∧ startTs ≤ e.ts then e :: stretch startTs e.pktNum es else []

/-- How far the loop that marks the entries lost comes. -/
def LostRun.along (l : Loss) : LostRun → List Entry → LostRun
  | run, [] => run
  | run, e :: es =>
      let run := run.next l e
      if e.lostRetransmitted then if run.ends l then run else along l run es else along l run es

/-- The packet is one that was really sent, and that is to be acknowledged. -/
def Entry.awaited (e : Entry) : Bool :=
  e.sent.ackEliciting && !e.sent.skip

namespace Rtb

variable (r : Rtb) (l : Loss)

/-- Does `rtb_detect_lost_pkt` call `on_persistent_congestion`, with so many bytes lost? -/
def onPersistentCongestion (bytesLost : Nat) : Bool :=
  match (r.detected l).2 with
  | [] => false
  | e :: es =>
      let run := LostRun.along l (.start e) (e :: es)
      let lossWindow := sub64 run.latestTs run.oldestTs
      bytesLost ≠ 0 && l.application && lossWindow ≠ 0 && l.congestionPeriod ≤ lossWindow

/-- The lost entries with consecutive numbers, from the newest one on. -/
def lostStretch : List Entry :=
  match (r.detected l).2 with
  | [] => []
  | e :: es => stretch l.startTs (e.pktNum + 1) (e :: es)

/-- Where the newest entry of the stretch is a congestion period newer than another one, a packet that was really sent
and elicits an ACK was sent at the time of each of the two. -/
def Measured : Prop :=
  ∀ f ∈ (r.lostStretch l).head?, ∀ e ∈ r.lostStretch l, e.ts + l.congestionPeriod ≤ f.ts →
    (∃ a ∈ r.lostStretch l, a.awaited = true ∧ a.ts = f.ts) ∧ ∃ b ∈ r.lostStretch l, b.awaited = true ∧ b.ts = e.ts

instance : Decidable (r.Measured l) :=
  inferInstanceAs (Decidable (∀ f ∈ (r.lostStretch l).head?, ∀ e ∈ r.lostStretch l, _ → (∃ a ∈ _, _) ∧ ∃ b ∈ _, _))

/-- `ngtcp2_rtb_recv_ack` up to the losses: the buffer, and the number of packets that count for congestion control. -/
def takeAcked (fr : AckFrame) : Except Stop (Rtb × Nat) := do
  let largestAck : Int := fr.largestAck
  let r := { r with largestAckedTxPktNum := max r.largestAckedTxPktNum largestAck }
  if r.ents.dropWhile (largestAck < ·.pktNum) = [] then .ok (r, 0)
  else do
    let minAck := largestAck - fr.firstAckRange
    let (r, acked) ← r.ackRange (·.pktNum ≤ largestAck) largestAck minAck
    let (r, acked') ← ackRanges r minAck fr.ranges
    .ok (r, (acked ++ acked').countP (r.ccPktNum ≤ ·.pktNum))

end Rtb

section Stretch

variable {startTs : Nat} {pktNum : Int} {es : List Entry}

theorem stretch_sublist (startTs : Nat) (pktNum : Int) (es : List Entry) : (stretch startTs pktNum es).Sublist es := by
  induction es generalizing pktNum with
  | nil => exact .slnil
  | cons e es ih =>
      rw [stretch]
      split
      · exact (ih e.pktNum).cons_cons e
      · exact List.nil_sublist _

theorem stretch_since : ∀ e ∈ stretch startTs pktNum es, startTs ≤ e.ts := by
  induction es generalizing pktNum with
  | nil => exact List.forall_mem_nil _
  | cons e es ih =>
      rw [stretch]
      split
      · rename_i hnext
        exact List.forall_mem_cons.mpr ⟨hnext.2, ih⟩
      · exact List.forall_mem_nil _

/-- No number is left out between an entry of the stretch and its start. -/
theorem stretch_between {e : Entry} (he : e ∈ stretch startTs pktNum es) {m : Int} (hle : e.pktNum ≤ m) (hlt : m < pktNum) :
    ∃ a ∈ stretch startTs pktNum es, a.pktNum = m := by
  induction es generalizing pktNum with
  | nil => cases he
  | cons a as ih =>
      rw [stretch] at he ⊢
      split at he
      · rename_i hnext
        rw [if_pos hnext]
        by_cases ham : a.pktNum = m
        · exact ⟨a, List.mem_cons_self, ham⟩
        · rcases List.mem_cons.mp he with rfl | he
          · omega
          · obtain ⟨b, hb, heq⟩ := ih he (by omega)
            exact ⟨b, List.mem_cons_of_mem a hb, heq⟩
      · cases he

theorem stretch_lt {e : Entry} (he : e ∈ stretch startTs pktNum es) : e.pktNum < pktNum := by
  induction es generalizing pktNum with
  | nil => cases he
  | cons a as ih =>
      rw [stretch] at he
      split at he
      · rename_i hnext
        rcases List.mem_cons.mp he with rfl | he
        · omega
        · have := ih he
          omega
      · cases he

variable {l : Loss} {run : LostRun}

theorem along_latest : (LostRun.along l run es).latestTs = run.latestTs := by
  have hnext : ∀ (run : LostRun) e, (run.next l e).latestTs = run.latestTs := by
    intro run e
    rw [LostRun.next]
    split <;> rfl
  induction es generalizing run with
  | nil => rfl
  | cons e es ih =>
      rw [LostRun.along]
      split
      · split
        · exact hnext run e
        · exact ih.trans (hnext run e)
      · exact ih.trans (hnext run e)

/-- Packet numbers are not negative, so that a gap ends the stretch for good. -/
theorem along_broken (hnum : ∀ e ∈ es, 0 ≤ e.pktNum) (hgap : run.lastLostPktNum = -1) :
    (LostRun.along l run es).oldestTs = run.oldestTs := by
  induction es generalizing run with
  | nil => rfl
  | cons e es ih =>
      obtain ⟨he, hes⟩ := List.forall_mem_cons.mp hnum
      have hnext : run.next l e = { run with lastLostPktNum := -1 } := by
        rw [LostRun.next, if_neg]
        omega
      rw [LostRun.along, hnext]
      split
      · split
        · rfl
        · exact ih hes rfl
      · exact ih hes rfl

theorem along_oldest (hnum : ∀ e ∈ es, 0 ≤ e.pktNum) :
    (LostRun.along l run es).oldestTs = run.oldestTs ∨
      ∃ e ∈ stretch l.startTs run.lastLostPktNum es, (LostRun.along l run es).oldestTs = e.ts := by
  induction es generalizing run with
  | nil => exact Or.inl rfl
  | cons e es ih =>
      obtain ⟨he, hes⟩ := List.forall_mem_cons.mp hnum
      rw [stretch, LostRun.along, LostRun.next]
      by_cases hnext : run.lastLostPktNum = e.pktNum + 1 ∧ l.startTs ≤ e.ts
      · rw [if_pos hnext, if_pos hnext]
        right
        have hrest : ∃ a ∈ e :: stretch l.startTs e.pktNum es,
            (LostRun.along l ⟨run.latestTs, e.ts, e.pktNum⟩ es).oldestTs = a.ts := by
          obtain heq | ⟨a, ha, heq⟩ := @ih ⟨run.latestTs, e.ts, e.pktNum⟩ hes
          · exact ⟨e, List.mem_cons_self, heq⟩
          · exact ⟨a, List.mem_cons_of_mem e ha, heq⟩
        split
        · split
          · exact ⟨e, List.mem_cons_self, rfl⟩
          · exact hrest
        · exact hrest
      · rw [if_neg hnext, if_neg hnext]
        left
        split
        · split
          · rfl
          · exact along_broken hes rfl
        · exact along_broken hes rfl

end Stretch

namespace Rtb

section Ends

variable {r : Rtb} {l : Loss}

theorem lostStretch_sublist (r : Rtb) (l : Loss) : (r.lostStretch l).Sublist (r.detected l).2 := by
  rw [lostStretch]
  split
  · exact List.nil_sublist _
  · rename_i heq
    rw [heq]
    exact stretch_sublist _ _ _

theorem detected_sublist (r : Rtb) (l : Loss) : (r.detected l).2.Sublist r.ents := by
  conv_rhs => rw [← r.detected_append l]
  exact List.sublist_append_right _ _

theorem lostStretch_since : ∀ e ∈ r.lostStretch l, l.startTs ≤ e.ts := by
  rw [lostStretch]
  split
  · exact List.forall_mem_nil _
  · exact stretch_since

theorem lostStretch_between {a b : Entry} (ha : a ∈ r.lostStretch l) (hb : b ∈ r.lostStretch l) {m : Int}
    (hle : b.pktNum ≤ m) (hge : m ≤ a.pktNum) : ∃ x ∈ r.lostStretch l, x.pktNum = m := by
  revert ha hb
  rw [lostStretch]
  split
  · exact fun ha => absurd ha List.not_mem_nil
  · intro ha hb
    exact stretch_between hb hle (Int.lt_of_le_of_lt hge (stretch_lt ha))

/-- The window that is compared with the congestion period lies between two entries of the stretch. -/
theorem onPersistentCongestion_ends {bytesLost : Nat} (h : r.onPersistentCongestion l bytesLost = true)
    (hnum : ∀ e ∈ r.ents, 0 ≤ e.pktNum) (hts : r.ents.Pairwise fun a b => b.ts ≤ a.ts) (hfit : ∀ e ∈ r.ents, e.ts < 2 ^ 64) :
    ∃ f ∈ (r.lostStretch l).head?, ∃ e ∈ r.lostStretch l, e.ts + l.congestionPeriod ≤ f.ts := by
  have hsub := r.detected_sublist l
  rw [onPersistentCongestion] at h
  rw [lostStretch]
  cases hes : (r.detected l).2 with
  | nil =>
      rw [hes] at h
      cases h
  | cons f es =>
      rw [hes] at h hsub
      simp only [Bool.and_eq_true, decide_eq_true_eq, along_latest] at h
      obtain ⟨⟨-, hne⟩, hperiod⟩ := h
      have hzero : ∀ t, t < 2 ^ 64 → sub64 t t = 0 := fun t ht => (sub64_of_le le_rfl ht).trans (Nat.sub_self t)
      have hf := hfit f (hsub.subset List.mem_cons_self)
      obtain heq | ⟨e, he, heq⟩ := @along_oldest (f :: es) l (.start f) fun e he => hnum e (hsub.subset he)
      · rw [heq] at hne
        exact absurd (hzero f.ts hf) hne
      · rw [heq] at hne hperiod
        change e ∈ stretch l.startTs (f.pktNum + 1) (f :: es) at he
        have hle : e.ts ≤ f.ts := by
          have hmem := (stretch_sublist _ _ _).subset he
          rcases List.mem_cons.mp hmem with rfl | hmem
          · exact le_rfl
          · exact (List.pairwise_cons.mp (hts.sublist hsub)).1 e hmem
        change l.congestionPeriod ≤ sub64 f.ts e.ts at hperiod
        rw [sub64_of_le hle hf] at hperiod
        have hhead : f ∈ (stretch l.startTs (f.pktNum + 1) (f :: es)).head? := by
          rw [stretch] at he ⊢
          split
          · rfl
          · rename_i hnot
            rw [if_neg hnot] at he
            cases he
        exact ⟨f, hhead, e, he, by omega⟩

theorem congestionPeriod_pos (l : Loss) : 0 < l.congestionPeriod := by
  rw [Loss.congestionPeriod, Loss.granularity]
  omega

theorem older_of_ts {es : List Entry} (hd : es.Pairwise fun a b => b.pktNum < a.pktNum) (hts : es.Pairwise fun a b => b.ts ≤ a.ts) :
    ∀ a ∈ es, ∀ b ∈ es, b.ts < a.ts → b.pktNum < a.pktNum := by
  intro a ha b hb
  refine List.Pairwise.forall_of_forall_of_flip (R := fun a b : Entry => b.ts < a.ts → b.pktNum < a.pktNum)
    (fun x _ hlt => absurd hlt (Nat.lt_irrefl _)) ?_ ?_ ha hb
  · exact hd.imp fun {a b} hnum (_ : b.ts < a.ts) => hnum
  · exact hts.imp fun {a b} hle (hlt : a.ts < b.ts) => absurd hlt (Nat.not_lt.mpr hle)

/-- What a declaration finds, if the ends of its window are those of packets that count. -/
theorem onPersistentCongestion_awaited {bytesLost : Nat} (h : r.onPersistentCongestion l bytesLost = true) (hm : r.Measured l)
    (hsound : Sound r) (hnum : ∀ e ∈ r.ents, 0 ≤ e.pktNum) (hts : r.ents.Pairwise fun a b => b.ts ≤ a.ts)
    (hfit : ∀ e ∈ r.ents, e.ts < 2 ^ 64) :
    ∃ a ∈ (r.detected l).2, ∃ b ∈ (r.detected l).2, a.awaited = true ∧ b.awaited = true ∧ l.startTs ≤ a.ts ∧ l.startTs ≤ b.ts ∧
      b.ts + l.congestionPeriod ≤ a.ts ∧ b.pktNum < a.pktNum ∧
      ∀ m, b.pktNum ≤ m → m ≤ a.pktNum → ∃ x ∈ r.ents, x.pktNum = m := by
  obtain ⟨f, hf, e, he, hle⟩ := onPersistentCongestion_ends h hnum hts hfit
  obtain ⟨⟨a, ha, hawaited, hats⟩, b, hb, hbwaited, hbts⟩ := hm f hf e he hle
  have hsub := r.lostStretch_sublist l
  have hsub' := r.detected_sublist l
  rw [← hats, ← hbts] at hle
  have hpos := congestionPeriod_pos l
  refine ⟨a, hsub.subset ha, b, hsub.subset hb, hawaited, hbwaited, lostStretch_since a ha, lostStretch_since b hb, hle, ?_, ?_⟩
  · exact older_of_ts hsound.ordered.desc hts a (hsub'.subset (hsub.subset ha)) b (hsub'.subset (hsub.subset hb)) (by omega)
  · intro m hbm hma
    obtain ⟨x, hx, heq⟩ := lostStretch_between ha hb hbm hma
    exact ⟨x, hsub'.subset (hsub.subset hx), heq⟩

end Ends

/-- What an entry has from its packet and keeps. -/
def origin (e : Entry) : Int × Nat × Bool × Bool :=
  (e.pktNum, e.ts, e.sent.ackEliciting, e.sent.skip)

/-- Only entries that were there stay, in their order. -/
def Descends (r r' : Rtb) : Prop :=
  (r'.ents.map origin).Sublist (r.ents.map origin)

section Descends

variable {r r' r'' : Rtb}

theorem Descends.trans (h : Descends r r') (h' : Descends r' r'') : Descends r r'' :=
  List.Sublist.trans h' h

theorem Pruned.descends (h : Pruned r r') : Descends r r' :=
  h.sublist.map origin

theorem map_origin {es es' : List Entry} (h : es'.map Entry.unmarked = es.map Entry.unmarked) :
    es'.map origin = es.map origin := by
  have hcomp : origin ∘ Entry.unmarked = origin := rfl
  rw [← hcomp, ← List.map_map, h, List.map_map]

theorem reclaimLoop_origin {reclaimed : Entry → Nat} {numPkts n : Nat} {c c' : Counters} {es es' : List Entry}
    (h : reclaimLoop reclaimed numPkts c es = .ok (n, c', es')) : es'.map origin = es.map origin := by
  induction es generalizing numPkts n c es' with
  | nil =>
      cases h
      rfl
  | cons e es ih =>
      rw [reclaimLoop] at h
      split at h
      · cases h
        rfl
      · split at h
        · obtain ⟨⟨n₁, c₁, es₁⟩, hrun, h⟩ := bind_ok h
          cases h
          rw [List.map_cons, List.map_cons, ih hrun]
        · obtain ⟨numRetransmittable, -, h⟩ := bind_ok h
          obtain ⟨numPtoEliciting, -, h⟩ := bind_ok h
          obtain ⟨⟨n₁, c₁, es₁⟩, hrun, h⟩ := bind_ok h
          cases h
          rw [List.map_cons, List.map_cons, ih hrun]
          rfl

theorem reclaimOnPto_descends {reclaimed : Entry → Nat} {numPkts n : Nat} (h : r.reclaimOnPto reclaimed numPkts = .ok (r', n)) :
    Descends r r' := by
  rw [reclaimOnPto] at h
  obtain ⟨⟨left, c, es⟩, hrun, h⟩ := bind_ok h
  cases h
  rw [Descends, List.map_reverse, reclaimLoop_origin hrun, ← List.map_reverse, List.reverse_reverse]

/-- `ngtcp2_rtb_recv_ack` takes out the acknowledged packets, and then looks for lost ones. -/
theorem recvAck_takeAcked (r : Rtb) (fr : AckFrame) (l : Loss) :
    r.recvAck fr l = r.takeAcked fr >>= fun p =>
      if p.2 = 0 then .ok (p.1, 0) else p.1.detectLostPkt l >>= fun q => .ok (q.1, p.2) := by
  rw [recvAck, takeAcked]
  simp only
  split
  · rfl
  · simp only [bind, Except.bind]
    cases ackRange { r with largestAckedTxPktNum := max r.largestAckedTxPktNum fr.largestAck }
        (·.pktNum ≤ fr.largestAck) fr.largestAck (fr.largestAck - fr.firstAckRange) with
    | error stop => rfl
    | ok p =>
        simp only
        cases ackRanges p.1 (fr.largestAck - fr.firstAckRange) fr.ranges with
        | error stop => rfl
        | ok p' => rfl

theorem takeAcked_spec {r r' : Rtb} (h : Sound r) {fr : AckFrame} {n : Nat} (hrun : r.takeAcked fr = .ok (r', n)) :
    Pruned r r' ∧ ∀ e ∈ r'.ents, covers fr e.pktNum = false := by
  rw [takeAcked] at hrun
  simp only at hrun
  have h₀ : Sound { r with largestAckedTxPktNum := max r.largestAckedTxPktNum fr.largestAck } := ⟨h.counts, h.ordered⟩
  split at hrun
  · rename_i hend
    cases hrun
    exact ⟨⟨⟨h₀, fun e he => ⟨e, he, rfl⟩, rfl⟩, List.Sublist.refl _⟩, acked_eq_nil hend⟩
  · obtain ⟨⟨r₁, acked₁⟩, hrange, hrun⟩ := bind_ok hrun
    obtain ⟨⟨r₂, acked₂⟩, hranges, hrun⟩ := bind_ok hrun
    cases hrun
    have htook := ackRange_ranges_took h₀ fr
    rw [hrange] at htook
    simp only [bind, Except.bind] at htook
    rw [hranges] at htook
    have hents : r₂.ents = r.ents.filter (!covers fr ·.pktNum) := htook.ents
    have hsub : r₂.ents.Sublist r.ents := by
      rw [hents]
      exact List.filter_sublist
    refine ⟨h.pruned htook.sound.counts hsub htook.ccPktNum, fun e he => ?_⟩
    rw [hents] at he
    simpa using (List.mem_filter.mp he).2

theorem detectLostPkt_descends {l : Loss} {n : Nat} (h : r.detectLostPkt l = .ok (r', n)) : Descends r r' := by
  obtain ⟨dropped, hents, -, -⟩ := (detectLostPkt_detected h).ents
  rw [Descends, ← map_origin hents]
  exact (List.sublist_append_left r'.ents dropped).map origin

end Descends

end Rtb

namespace State

theorem Inv.step_descends {s s' : State} (h : Inv s) {op : Op} (hop : Removes op) (hstep : s.step op = .ok s') :
    Rtb.Descends s.rtb s'.rtb := by
  cases op with
  | add pktNum type ts pktlen sent => cases hop
  | resetCcState => cases hop
  | others bytes => cases hop
  | recvAck fr loss =>
      obtain ⟨⟨rtb, n⟩, hrun, hstep⟩ := bind_ok hstep
      cases hstep
      rw [Rtb.recvAck_takeAcked] at hrun
      obtain ⟨⟨r, numAcked⟩, htake, hrun⟩ := bind_ok hrun
      have hdescends := (Rtb.takeAcked_spec h.sound htake).1.descends
      simp only at hrun
      split at hrun
      · cases hrun
        exact hdescends
      · obtain ⟨⟨r₁, lost⟩, hdetect, hrun⟩ := bind_ok hrun
        cases hrun
        exact hdescends.trans (Rtb.detectLostPkt_descends hdetect)
  | detectLostPkt loss =>
      obtain ⟨⟨rtb, n⟩, hrun, hstep⟩ := bind_ok hstep
      cases hstep
      exact Rtb.detectLostPkt_descends hrun
  | reclaimOnPto reclaimed numPkts =>
      obtain ⟨⟨rtb, n⟩, hrun, hstep⟩ := bind_ok hstep
      cases hstep
      exact Rtb.reclaimOnPto_descends hrun
  | removeExcessiveLostPkt n =>
      obtain ⟨rtb, hrun, hpruned⟩ := h.sound.removeStale n fun _ => false
      rw [step, Rtb.removeExcessiveLostPkt, hrun] at hstep
      cases hstep
      exact hpruned.descends
  | removeExpiredLostPkt timeout ts =>
      obtain ⟨rtb, hrun, hpruned⟩ := h.sound.removeStale 0 fun e => sub64 ts e.lostTs < timeout
      rw [step, Rtb.removeExpiredLostPkt, hrun] at hstep
      cases hstep
      exact hpruned.descends
  | removeEarlyData =>
      obtain ⟨rtb, hrun, hpruned⟩ := h.sound.removeEarlyData
      rw [step, hrun] at hstep
      cases hstep
      exact hpruned.descends

end State

end Zngtcp2.RtbTx
