import Zngtcp2.Rtb.Accounting

namespace Zngtcp2.RtbTx

open Lib.Run PktnsRx
open Strm (Stop)
open Pkt (PktType)

/-- The buffer and the last packet number that was used. -/
structure State where
  rtb : Rtb
  lastPktNum : Int

inductive Op
  | add (pktNum : Int) (type : PktType) (ts pktlen : Nat) (sent : SentFlags)
  | recvAck (fr : AckFrame) (loss : Loss)
  | detectLostPkt (loss : Loss)
  | reclaimOnPto (reclaimed : Entry → Nat) (numPkts : Nat)
  | removeExcessiveLostPkt (n : Nat)
  | removeExpiredLostPkt (timeout ts : Nat)
  | removeEarlyData
  | resetCcState
  /-- the other packet number spaces have now so many bytes in flight -/
  | others (bytes : Nat)

namespace State

def init (ccPktNum : Int) (bytesInFlight : Nat) : State :=
  ⟨.init ccPktNum bytesInFlight, -1⟩

def step (s : State) : Op → Except Stop State
  | .add pktNum type ts pktlen sent => do
      let rtb ← s.rtb.add (.init pktNum type ts pktlen sent)
      .ok ⟨rtb, pktNum⟩
  | .recvAck fr loss => do
      let (rtb, _) ← s.rtb.recvAck fr loss
      .ok { s with rtb := rtb }
  | .detectLostPkt loss => do
      let (rtb, _) ← s.rtb.detectLostPkt loss
      .ok { s with rtb := rtb }
  | .reclaimOnPto reclaimed numPkts => do
      let (rtb, _) ← s.rtb.reclaimOnPto reclaimed numPkts
      .ok { s with rtb := rtb }
  | .removeExcessiveLostPkt n => do
      let rtb ← s.rtb.removeExcessiveLostPkt n
      .ok { s with rtb := rtb }
  | .removeExpiredLostPkt timeout ts => do
      let rtb ← s.rtb.removeExpiredLostPkt timeout ts
      .ok { s with rtb := rtb }
  | .removeEarlyData => do
      let rtb ← s.rtb.removeEarlyData
      .ok { s with rtb := rtb }
  | .resetCcState => .ok { s with rtb := s.rtb.resetCcState (s.lastPktNum + 1) }
  | .others bytes =>
      let c := s.rtb.counters
      .ok { s with rtb := { s.rtb with counters := { c with bytesInFlight := c.ccBytesInFlight + bytes } } }

/-- Packet numbers increase, and are not below the start of the congestion state. -/
def Allowed (s : State) : Op → Prop
  | .add pktNum _ _ _ _ => s.lastPktNum < pktNum ∧ s.rtb.ccPktNum ≤ pktNum
  | _ => True

instance decidableAllowed (s : State) (op : Op) : Decidable (s.Allowed op) :=
  match op with
  | .add .. => inferInstanceAs (Decidable (_ ∧ _))
  | .recvAck .. | .detectLostPkt .. | .reclaimOnPto .. | .removeExcessiveLostPkt .. | .removeExpiredLostPkt ..
  | .removeEarlyData | .resetCcState | .others .. => .isTrue trivial

end State

namespace Rtb

/-- The counters are those of the entries, and the lost entries are the oldest ones. -/
structure Accounted (r : Rtb) : Prop where
  counts : Counts r.ccPktNum r.counters r.ents
  suffix : ∃ live lost, r.ents = live ++ lost ∧ (∀ e ∈ live, e.lostRetransmitted = false) ∧
    ∀ e ∈ lost, e.lostRetransmitted = true
  older : ∀ a ∈ r.ents, ∀ b ∈ r.ents, b.pktNum < a.pktNum → a.lostRetransmitted = true → b.lostRetransmitted = true

structure Sound (r : Rtb) : Prop where
  counts : Counts r.ccPktNum r.counters r.ents
  ordered : Ordered r.ents

theorem ordered_suffix {es : List Entry} (h : Ordered es) :
    ∃ live lost, es = live ++ lost ∧ (∀ e ∈ live, e.lostRetransmitted = false) ∧ ∀ e ∈ lost, e.lostRetransmitted = true := by
  induction es with
  | nil => exact ⟨[], [], rfl, by simp, by simp⟩
  | cons e es ih =>
      cases hl : e.lostRetransmitted with
      | true =>
          refine ⟨[], e :: es, rfl, by simp, List.forall_mem_cons.mpr ⟨hl, fun a ha => ?_⟩⟩
          exact (List.pairwise_cons.mp h.lost).1 a ha hl
      | false =>
          obtain ⟨live, lost, rfl, hlive, hlost⟩ := ih (h.sublist (List.sublist_cons_self e es))
          exact ⟨e :: live, lost, rfl, List.forall_mem_cons.mpr ⟨hl, hlive⟩, hlost⟩

theorem ordered_older {es : List Entry} (h : Ordered es) :
    ∀ a ∈ es, ∀ b ∈ es, b.pktNum < a.pktNum → a.lostRetransmitted = true → b.lostRetransmitted = true := by
  intro a ha b hb hlt hlost
  obtain ⟨live, lost, rfl, hlive, hall⟩ := ordered_suffix h
  rcases List.mem_append.mp hb with hb | hb
  · have halost : a ∈ lost := by
      rcases List.mem_append.mp ha with ha | ha
      · rw [hlive a ha] at hlost
        cases hlost
      · exact ha
    have := (List.pairwise_append.mp h.desc).2.2 b hb a halost
    omega
  · exact hall b hb

theorem Sound.accounted {r : Rtb} (h : Sound r) : Accounted r :=
  ⟨h.counts, ordered_suffix h.ordered, ordered_older h.ordered⟩

/-- What every operation keeps: only entries that were there stay, as far as their numbers go. -/
structure Kept (r r' : Rtb) : Prop where
  sound : Sound r'
  pktNums : ∀ e ∈ r'.ents, ∃ a ∈ r.ents, a.pktNum = e.pktNum
  ccPktNum : r'.ccPktNum = r.ccPktNum

theorem Kept.trans {r r' r'' : Rtb} (h : Kept r r') (h' : Kept r' r'') : Kept r r'' := by
  refine ⟨h'.sound, fun e he => ?_, h'.ccPktNum.trans h.ccPktNum⟩
  obtain ⟨a, ha, heq⟩ := h'.pktNums e he
  obtain ⟨b, hb, heq'⟩ := h.pktNums a ha
  exact ⟨b, hb, heq'.trans heq⟩

/-- Entries are only taken out, and none is changed. -/
structure Pruned (r r' : Rtb) : Prop extends Kept r r' where
  sublist : r'.ents.Sublist r.ents

theorem Pruned.refl {r : Rtb} (h : Sound r) : Pruned r r :=
  ⟨⟨h, fun e he => ⟨e, he, rfl⟩, rfl⟩, List.Sublist.refl _⟩

theorem Pruned.trans {r r' r'' : Rtb} (h : Pruned r r') (h' : Pruned r' r'') : Pruned r r'' :=
  ⟨h.toKept.trans h'.toKept, h'.sublist.trans h.sublist⟩

theorem Sound.pruned {r r' : Rtb} (h : Sound r) (hc : Counts r'.ccPktNum r'.counters r'.ents) (hs : r'.ents.Sublist r.ents)
    (hcc : r'.ccPktNum = r.ccPktNum) : Pruned r r' :=
  ⟨⟨⟨hc, h.ordered.sublist hs⟩, fun e he => ⟨e, hs.subset he, rfl⟩, hcc⟩, hs⟩

theorem kslInsert_front {e : Entry} {es : List Entry} (h : ∀ a ∈ es, a.pktNum < e.pktNum) :
    kslInsert e es = some (e :: es) := by
  cases es with
  | nil => rfl
  | cons a as =>
      have := h a List.mem_cons_self
      rw [kslInsert, if_neg (by omega), if_neg (by omega)]

theorem Sound.add {r : Rtb} (h : Sound r) {pktNum : Int} (hnew : ∀ a ∈ r.ents, a.pktNum < pktNum)
    (hcc : r.ccPktNum ≤ pktNum) (type : PktType) (ts pktlen : Nat) (sent : SentFlags) :
    ∃ r', r.add (.init pktNum type ts pktlen sent) = .ok r' ∧ Sound r' ∧
      r'.ents = .init pktNum type ts pktlen sent :: r.ents := by
  obtain ⟨c, hadd, hc⟩ := @Counts.onAdd r.ccPktNum r.counters (.init pktNum type ts pktlen sent) r.ents h.counts hcc rfl rfl
  rw [Rtb.add, kslInsert_front hnew]
  simp only
  rw [hadd]
  refine ⟨_, rfl, ⟨hc, ?_, ?_, ?_⟩, rfl⟩
  · exact List.pairwise_cons.mpr ⟨hnew, h.ordered.desc⟩
  · exact List.pairwise_cons.mpr ⟨by simp [Entry.init], h.ordered.lost⟩
  · exact List.forall_mem_cons.mpr ⟨fun _ => rfl, h.ordered.lostTs⟩

theorem Sound.removeStale {r : Rtb} (h : Sound r) (keep : Nat) (fresh : Entry → Bool) :
    ∃ r', r.removeStale keep fresh = .ok r' ∧ Pruned r r' := by
  obtain ⟨c, es, hrun, hc, hsub⟩ := dropStale_ok keep fresh (h.counts.perm r.ents.reverse_perm.symm)
    (List.pairwise_reverse.mpr h.ordered.lost)
  rw [Rtb.removeStale, hrun]
  refine ⟨_, rfl, h.pruned (hc.perm es.reverse_perm.symm) ?_ rfl⟩
  have := hsub.reverse
  rwa [List.reverse_reverse] at this

theorem Sound.detectMark {r : Rtb} (h : Sound r) (l : Loss) {before es : List Entry} (hes : before ++ es = r.ents) :
    ∃ r' n, r.detectMark l before es = .ok (r', n) ∧ Kept r r' := by
  cases es with
  | nil =>
      rw [List.append_nil] at hes
      subst hes
      exact ⟨r, 0, rfl, h, fun e he => ⟨e, he, rfl⟩, rfl⟩
  | cons e es =>
      have hord : Ordered (before ++ e :: es) := hes.symm ▸ h.ordered
      have hcounts : Counts r.ccPktNum r.counters (e :: es ++ before) := (hes.symm ▸ h.counts).perm List.perm_append_comm
      obtain ⟨c, es', n, hrun, hc, hk, hall⟩ :=
        markLost_ok l hcounts (hord.sublist (List.sublist_append_right before _)) (.start e) 0
      rw [Rtb.detectMark, hrun]
      refine ⟨_, n, rfl, ⟨hc.perm List.perm_append_comm, hord.markTail hk hall⟩, ?_, rfl⟩
      intro a ha
      have hnum : a.pktNum ∈ r.ents.map Entry.pktNum := by
        rw [← hes, List.map_append, ← hk, ← List.map_append]
        exact List.mem_map_of_mem ha
      exact List.mem_map.mp hnum

/-- The entries that `rtb_detect_lost_pkt` passes over, and those from the first lost one on. -/
def detected (r : Rtb) (l : Loss) : List Entry × List Entry :=
  let s := splitLost (l.pktLost r.largestAckedTxPktNum (r.pktThres l)) (r.ents.dropWhile (r.largestAckedTxPktNum < ·.pktNum))
  (r.ents.takeWhile (r.largestAckedTxPktNum < ·.pktNum) ++ s.1, s.2)

theorem detected_append (r : Rtb) (l : Loss) : (r.detected l).1 ++ (r.detected l).2 = r.ents := by
  rw [detected, List.append_assoc, splitLost_append, List.takeWhile_append_dropWhile]

/-- Losses are marked behind the first lost entry, and then the excessive ones are removed. -/
theorem Sound.detectLostPkt_parts {r : Rtb} (h : Sound r) (l : Loss) :
    ∃ r₁ r₂ n, r.detectMark l (r.detected l).1 (r.detected l).2 = .ok (r₁, n) ∧ Kept r r₁ ∧
      r₁.removeExcessiveLostPkt (r.pktThres l) = .ok r₂ ∧ r.detectLostPkt l = .ok (r₂, n) ∧ Pruned r₁ r₂ := by
  obtain ⟨r₁, n, hmark, hkept⟩ := h.detectMark l (r.detected_append l)
  obtain ⟨r₂, hdrop, hpruned⟩ := hkept.sound.removeStale (r.pktThres l) fun _ => false
  refine ⟨r₁, r₂, n, hmark, hkept, hdrop, ?_, hpruned⟩
  rw [detected] at hmark
  rw [Rtb.detectLostPkt]
  simp only at hmark ⊢
  rw [hmark]
  simp only [bind, Except.bind]
  rw [removeExcessiveLostPkt, hdrop]

theorem Sound.detectLostPkt {r : Rtb} (h : Sound r) (l : Loss) : ∃ r' n, r.detectLostPkt l = .ok (r', n) ∧ Kept r r' := by
  obtain ⟨r₁, r₂, n, -, hkept, -, hrun, hpruned⟩ := h.detectLostPkt_parts l
  exact ⟨r₂, n, hrun, hkept.trans hpruned.toKept⟩

theorem dropWhile_le {es : List Entry} (h : Ordered es) (largestAck : Int) :
    ∀ e ∈ es.dropWhile (largestAck < ·.pktNum), e.pktNum ≤ largestAck := by
  induction es with
  | nil => simp
  | cons a as ih =>
      rw [List.dropWhile_cons]
      split
      · exact ih (h.sublist (List.sublist_cons_self a as))
      · rename_i hle
        simp only [decide_eq_true_eq] at hle
        refine List.forall_mem_cons.mpr ⟨by omega, fun b hb => ?_⟩
        have := (List.pairwise_cons.mp h.desc).1 b hb
        omega

def Failed (stop : Stop) : Prop :=
  ∃ rv, stop = .failed rv

theorem Sound.ackRange {r : Rtb} (h : Sound r) (asserted : Entry → Bool) (largestAck minAck : Int)
    (hok : ∀ e ∈ r.ents.dropWhile (largestAck < ·.pktNum), asserted e = true) :
    Ends Failed (fun p => Pruned r p.1) (r.ackRange asserted largestAck minAck) := by
  have hsplit := r.ents.takeWhile_append_dropWhile (p := (largestAck < ·.pktNum))
  have hcounts : Counts r.ccPktNum r.counters
      (r.ents.dropWhile (largestAck < ·.pktNum) ++ r.ents.takeWhile (largestAck < ·.pktNum)) := by
    refine h.counts.perm ?_
    conv_lhs => rw [← hsplit]
    exact List.perm_append_comm
  rw [Rtb.ackRange]
  refine Ends.bind (removeAcked_ends asserted minAck hcounts hok) ?_
  rintro ⟨c, acked, older⟩ ⟨hc, hsub⟩
  refine h.pruned (hc.perm List.perm_append_comm) ?_ rfl
  conv_rhs => rw [← hsplit]
  exact (List.Sublist.refl _).append hsub

theorem Sound.ackRanges {r : Rtb} (h : Sound r) (minAck : Int) (ranges : List AckRange) :
    Ends Failed (fun p => Pruned r p.1) (Rtb.ackRanges r minAck ranges) := by
  induction ranges generalizing r minAck with
  | nil => exact .refl h
  | cons range ranges ih =>
      rw [Rtb.ackRanges]
      simp only
      split
      · exact .refl h
      · refine Ends.bind (h.ackRange _ _ _ fun _ _ => rfl) ?_
        rintro ⟨r₁, acked⟩ hkept
        refine Ends.bind (ih hkept.sound _) ?_
        rintro ⟨r₂, acked'⟩ hkept'
        exact hkept.trans hkept'

theorem Sound.recvAck {r : Rtb} (h : Sound r) (fr : AckFrame) (l : Loss) :
    Ends Failed (fun p => Kept r p.1) (r.recvAck fr l) := by
  rw [Rtb.recvAck]
  simp only
  have h₁ : Sound { r with largestAckedTxPktNum := max r.largestAckedTxPktNum fr.largestAck } := ⟨h.counts, h.ordered⟩
  have hkept₁ : Kept r { r with largestAckedTxPktNum := max r.largestAckedTxPktNum fr.largestAck } :=
    ⟨h₁, fun e he => ⟨e, he, rfl⟩, rfl⟩
  split
  · exact hkept₁
  · refine Ends.bind (h₁.ackRange _ _ _ fun e he => ?_) ?_
    · simpa using dropWhile_le h₁.ordered _ e he
    · rintro ⟨r₂, acked⟩ hpruned₂
      refine Ends.bind (hpruned₂.sound.ackRanges _ fr.ranges) ?_
      rintro ⟨r₃, acked'⟩ hpruned₃
      have hkept := hkept₁.trans (hpruned₂.trans hpruned₃).toKept
      simp only
      split
      · exact hkept
      · obtain ⟨r₄, n, hdetect, hkept₄⟩ := hkept.sound.detectLostPkt l
        rw [hdetect]
        exact hkept.trans hkept₄

theorem Sound.removeEarlyData {r : Rtb} (h : Sound r) : ∃ r', r.removeEarlyData = .ok r' ∧ Pruned r r' := by
  have hcounts : Counts r.ccPktNum r.counters (r.ents ++ []) := by
    rw [List.append_nil]
    exact h.counts
  obtain ⟨c, es, hrun, hc, hsub⟩ := dropEarlyData_ok hcounts
  rw [List.append_nil] at hc
  rw [Rtb.removeEarlyData, hrun]
  exact ⟨_, rfl, h.pruned hc hsub rfl⟩

theorem Sound.reclaimOnPto {r : Rtb} (h : Sound r) (reclaimed : Entry → Nat) (numPkts : Nat) :
    ∃ r' n, r.reclaimOnPto reclaimed numPkts = .ok (r', n) ∧ Kept r r' := by
  have hcounts : Counts r.ccPktNum r.counters (r.ents.reverse ++ []) := by
    rw [List.append_nil]
    exact h.counts.perm r.ents.reverse_perm.symm
  obtain ⟨n, c, es, hrun, hc, hk⟩ := reclaimLoop_ok reclaimed numPkts hcounts
  rw [List.append_nil] at hc
  have hkeys : es.reverse.map Entry.key = r.ents.map Entry.key := by
    rw [List.map_reverse, hk, List.map_reverse, List.reverse_reverse]
  rw [Rtb.reclaimOnPto, hrun]
  refine ⟨_, _, rfl, ⟨hc.perm es.reverse_perm.symm, h.ordered.of_keys hkeys⟩, fun e he => ?_, rfl⟩
  have hmem : e.key ∈ r.ents.map Entry.key := by
    rw [← hkeys]
    exact List.mem_map_of_mem he
  obtain ⟨a, ha, heq⟩ := List.mem_map.mp hmem
  exact ⟨a, ha, congrArg Prod.fst heq⟩

theorem Sound.resetCcState {r : Rtb} (h : Sound r) {ccPktNum : Int} (hnew : ∀ a ∈ r.ents, a.pktNum < ccPktNum) :
    Sound (r.resetCcState ccPktNum) := by
  refine ⟨⟨h.counts.ackEliciting, h.counts.retransmittable, h.counts.ptoEliciting, h.counts.lost, h.counts.ignored, ?_,
    Nat.le_refl 0⟩, h.ordered⟩
  symm
  refine List.sum_eq_zero fun n hn => ?_
  obtain ⟨e, he, rfl⟩ := List.mem_map.mp hn
  exact Entry.flight_eq_zero (hnew e he)

end Rtb

namespace State

/-- No entry has a packet number that was not used yet. -/
structure Inv (s : State) : Prop where
  sound : s.rtb.Sound
  used : ∀ e ∈ s.rtb.ents, e.pktNum ≤ s.lastPktNum

/-- The operations after which there are only entries that were there before. -/
def Removes : Op → Prop
  | .add .. | .resetCcState | .others _ => False
  | _ => True

theorem Inv.step_kept {s : State} (h : Inv s) {op : Op} (hop : Removes op) :
    Ends Rtb.Failed (fun s' => Rtb.Kept s.rtb s'.rtb ∧ s'.lastPktNum = s.lastPktNum) (s.step op) := by
  cases op with
  | add pktNum type ts pktlen sent => cases hop
  | resetCcState => cases hop
  | others bytes => cases hop
  | recvAck fr loss =>
      apply Ends.bind (h.sound.recvAck fr loss)
      rintro ⟨r, n⟩ hkept
      exact ⟨hkept, rfl⟩
  | detectLostPkt loss =>
      obtain ⟨r, n, hrun, hkept⟩ := h.sound.detectLostPkt loss
      rw [step, hrun]
      exact ⟨hkept, rfl⟩
  | reclaimOnPto reclaimed numPkts =>
      obtain ⟨r, n, hrun, hkept⟩ := h.sound.reclaimOnPto reclaimed numPkts
      rw [step, hrun]
      exact ⟨hkept, rfl⟩
  | removeExcessiveLostPkt n =>
      obtain ⟨r, hrun, hpruned⟩ := h.sound.removeStale n fun _ => false
      rw [step, Rtb.removeExcessiveLostPkt, hrun]
      exact ⟨hpruned.toKept, rfl⟩
  | removeExpiredLostPkt timeout ts =>
      obtain ⟨r, hrun, hpruned⟩ := h.sound.removeStale 0 fun e => sub64 ts e.lostTs < timeout
      rw [step, Rtb.removeExpiredLostPkt, hrun]
      exact ⟨hpruned.toKept, rfl⟩
  | removeEarlyData =>
      obtain ⟨r, hrun, hpruned⟩ := h.sound.removeEarlyData
      rw [step, hrun]
      exact ⟨hpruned.toKept, rfl⟩

theorem Inv.of_kept {s s' : State} (h : Inv s) (hk : Rtb.Kept s.rtb s'.rtb) (hlast : s'.lastPktNum = s.lastPktNum) :
    Inv s' := by
  refine ⟨hk.sound, fun e he => ?_⟩
  obtain ⟨a, ha, heq⟩ := hk.pktNums e he
  rw [hlast]
  exact heq ▸ h.used a ha

theorem Inv.step_removes {s : State} (h : Inv s) {op : Op} (hop : Removes op) :
    Ends Rtb.Failed Inv (s.step op) := by
  apply Ends.mono (h.step_kept hop)
  rintro s' ⟨hkept, hlast⟩
  exact h.of_kept hkept hlast

theorem step_inv (s : State) (op : Op) (h : Inv s) (ha : s.Allowed op) : Ends Rtb.Failed Inv (s.step op) := by
  cases op with
  | add pktNum type ts pktlen sent =>
      obtain ⟨hlt, hcc⟩ := ha
      have hnew : ∀ a ∈ s.rtb.ents, a.pktNum < pktNum := fun a ha => Int.lt_of_le_of_lt (h.used a ha) hlt
      obtain ⟨r, hadd, hsound, hents⟩ := h.sound.add hnew hcc type ts pktlen sent
      rw [step, hadd]
      refine ⟨hsound, ?_⟩
      intro e he
      rw [show (State.mk r pktNum).rtb.ents = r.ents from rfl, hents] at he
      rcases List.mem_cons.mp he with rfl | he
      · exact Int.le_refl _
      · exact Int.le_of_lt (hnew e he)
  | resetCcState => exact ⟨h.sound.resetCcState fun a ha => Int.lt_add_one_of_le (h.used a ha), h.used⟩
  | others bytes =>
      have hc := h.sound.counts
      exact ⟨⟨⟨hc.ackEliciting, hc.retransmittable, hc.ptoEliciting, hc.lost, hc.ignored, hc.flight,
        Nat.le_add_right _ _⟩, h.sound.ordered⟩, h.used⟩
  | recvAck fr loss => exact h.step_removes trivial
  | detectLostPkt loss => exact h.step_removes trivial
  | reclaimOnPto reclaimed numPkts => exact h.step_removes trivial
  | removeExcessiveLostPkt n => exact h.step_removes trivial
  | removeExpiredLostPkt timeout ts => exact h.step_removes trivial
  | removeEarlyData => exact h.step_removes trivial

theorem init_inv (ccPktNum : Int) (bytesInFlight : Nat) : Inv (init ccPktNum bytesInFlight) :=
  ⟨⟨⟨rfl, rfl, rfl, rfl, rfl, rfl, Nat.zero_le _⟩, .nil, .nil, by simp [init, Rtb.init]⟩, by simp [init, Rtb.init]⟩

/-- In every run the counters are those of the entries and the lost entries are the oldest ones; an
operation may fail, but no assertion does and no counter underflows. -/
theorem run_accounted (ccPktNum : Int) (bytesInFlight : Nat) {ops : List Op}
    (h : Guarded step Allowed (init ccPktNum bytesInFlight) ops) :
    Ends Rtb.Failed (fun s => s.rtb.Accounted) (run step (init ccPktNum bytesInFlight) ops) := by
  have hends := run_ends step_inv (init_inv ccPktNum bytesInFlight) h
  generalize run step (init ccPktNum bytesInFlight) ops = res at hends ⊢
  cases res with
  | error e => exact hends
  | ok s => exact hends.sound.accounted

/-- Five packets, the oldest one reclaimed on PTO; the last one is acknowledged, so that the two
oldest ones are lost; the congestion state starts anew, and another packet is sent. -/
theorem run_accounted_lost :
    (run step (init 0 0)
        [.add 0 .oneRtt 1 100 ⟨true, true, true, false, false⟩, .add 1 .oneRtt 2 100 ⟨true, true, true, false, false⟩,
          .add 2 .oneRtt 3 0 ⟨false, false, false, false, true⟩, .add 3 .oneRtt 4 300 ⟨false, true, true, true, false⟩,
          .add 4 .oneRtt 5 200 ⟨true, true, true, false, false⟩, .reclaimOnPto (fun _ => 1) 1,
          .recvAck ⟨none, 4, 0, 0, 0, []⟩ ⟨10, 1000, 1000, 500, 0, 0, 1200, true⟩, .resetCcState,
          .add 5 .oneRtt 11 50 ⟨true, true, true, false, false⟩]).map (fun s => s.rtb.counters) =
      .ok ⟨2, 1, 2, 2, 0, 50, 50⟩ ∧
    Ends Rtb.Failed (fun s => s.rtb.Accounted) (run step (init 0 0)
        [.add 0 .oneRtt 1 100 ⟨true, true, true, false, false⟩, .add 1 .oneRtt 2 100 ⟨true, true, true, false, false⟩,
          .add 2 .oneRtt 3 0 ⟨false, false, false, false, true⟩, .add 3 .oneRtt 4 300 ⟨false, true, true, true, false⟩,
          .add 4 .oneRtt 5 200 ⟨true, true, true, false, false⟩, .reclaimOnPto (fun _ => 1) 1,
          .recvAck ⟨none, 4, 0, 0, 0, []⟩ ⟨10, 1000, 1000, 500, 0, 0, 1200, true⟩, .resetCcState,
          .add 5 .oneRtt 11 50 ⟨true, true, true, false, false⟩]) :=
  ⟨by decide, run_accounted 0 0 (by decide)⟩

end State

end Zngtcp2.RtbTx
