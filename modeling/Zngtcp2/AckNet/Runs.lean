import Zngtcp2.AckNet.Steps

namespace Zngtcp2.AckNet

open Lib.Run PktnsRx
open Pkt (PktType)
open RtbTx (Tracked Rtb Loss Op SentFlags State recvAckProcess covers)
open Strm (Stop)

/-- Each packet number was processed once, and none that is still in the buffer was. -/
structure SpaceInv (t : Tracked (List Int)) : Prop where
  tracked : t.Inv
  ccPktNum : t.base.rtb.ccPktNum ≤ t.base.lastPktNum + 1
  once : t.conn.Nodup
  used : ∀ n ∈ t.conn, n ≤ t.base.lastPktNum
  apart : ∀ e ∈ t.base.rtb.ents, e.pktNum ∉ t.conn

namespace SpaceInv

variable {t t' : Tracked (List Int)}

theorem add (h : SpaceInv t) {type : PktType} {ts pktlen : Nat} {sent : SentFlags} :
    ∃ t', t.step record (.rtb (.add (t.base.lastPktNum + 1) type ts pktlen sent)) = .ok t' ∧ SpaceInv t' ∧
      t'.base.rtb.ents = .init (t.base.lastPktNum + 1) type ts pktlen sent :: t.base.rtb.ents ∧
      t'.base.lastPktNum = t.base.lastPktNum + 1 ∧ t'.conn = t.conn := by
  have hallowed : t.Allowed (.rtb (.add (t.base.lastPktNum + 1) type ts pktlen sent)) :=
    ⟨Int.lt_add_one_of_le (Int.le_refl _), h.ccPktNum⟩
  have hnew : ∀ a ∈ t.base.rtb.ents, a.pktNum < t.base.lastPktNum + 1 := fun a ha =>
    Int.lt_add_one_of_le (h.tracked.base.used a ha)
  obtain ⟨r, hadd, -, hents⟩ := h.tracked.base.sound.add hnew h.ccPktNum type ts pktlen sent
  have hbase : t.base.step (.add (t.base.lastPktNum + 1) type ts pktlen sent) = .ok ⟨r, t.base.lastPktNum + 1⟩ := by
    rw [State.step, hadd]
    rfl
  have hstep : t.step record (.rtb (.add (t.base.lastPktNum + 1) type ts pktlen sent)) =
      .ok ⟨⟨r, t.base.lastPktNum + 1⟩, t.rst.onPktSent (t.base.lastPktNum + 1), t.conn⟩ := by
    rw [Tracked.step, hbase]
    rfl
  refine ⟨_, hstep, ⟨Tracked.step_inv record _ h.tracked hallowed hstep, ?_, h.once, ?_, ?_⟩, hents, rfl, rfl⟩
  · have hcc : r.ccPktNum = t.base.rtb.ccPktNum := Rtb.add_ccPktNum hadd
    have hle := h.ccPktNum
    simp only
    omega
  · intro n hn
    exact Int.le_add_one (h.used n hn)
  · simp only [hents]
    refine List.forall_mem_cons.mpr ⟨?_, h.apart⟩
    intro hin
    have hle := h.used _ hin
    simp only [RtbTx.Entry.init] at hle
    omega

/-- A packet that is not kept in the buffer. -/
theorem skipOne (h : SpaceInv t) :
    SpaceInv { t with base := { t.base with lastPktNum := t.base.lastPktNum + 1 } } := by
  have hle := h.ccPktNum
  refine ⟨⟨⟨h.tracked.base.sound, ?_⟩, h.tracked.sent⟩, ?_, h.once, ?_, h.apart⟩
  · intro e he
    exact Int.le_add_one (h.tracked.base.used e he)
  · simp only
    omega
  · intro n hn
    exact Int.le_add_one (h.used n hn)

theorem recovery (h : SpaceInv t) {op : Op} (hop : Net.Recovery op) :
    ∃ t', t.step record (.rtb op) = .ok t' ∧ SpaceInv t' ∧ Thinned t.base.rtb t'.base.rtb ∧
      t'.base.lastPktNum = t.base.lastPktNum ∧ t'.conn = t.conn := by
  obtain ⟨base, hbase, hrecovered⟩ := recovery_step h.tracked.base hop
  obtain ⟨t', hstep, rfl, hconn, hallowed⟩ := recovery_tracked hop hbase
  refine ⟨t', hstep, ⟨Tracked.step_inv record _ h.tracked hallowed hstep, ?_, ?_, ?_, ?_⟩, hrecovered.thinned,
    hrecovered.lastPktNum, hconn⟩
  · have hle := h.ccPktNum
    rw [hrecovered.lastPktNum]
    obtain hcc | hcc := hrecovered.ccPktNum
    · rw [hcc]
      exact hle
    · rw [hcc]
  · rw [hconn]
    exact h.once
  · rw [hconn, hrecovered.lastPktNum]
    exact h.used
  · rw [hconn]
    intro e he
    obtain ⟨a, ha, hnum, -⟩ := hrecovered.thinned e he
    rw [← hnum]
    exact h.apart a ha

theorem delivered (h : SpaceInv t) (bytes : Nat) :
    ∃ t', t.step record (.delivered bytes) = .ok t' ∧ SpaceInv t' ∧ t'.base = t.base ∧ t'.conn = t.conn := by
  have hstep : t.step record (.delivered bytes) = .ok { t with rst := t.rst.updateRateSample bytes } := rfl
  exact ⟨_, hstep, ⟨Tracked.step_inv record (.delivered bytes) h.tracked trivial hstep, h.ccPktNum, h.once, h.used, h.apart⟩, rfl, rfl⟩

end SpaceInv

theorem record_foldlM (es : List RtbTx.Entry) (acked : List Int) :
    es.foldlM (fun acked e => record e acked) acked = .ok (acked ++ es.map RtbTx.Entry.pktNum) := by
  induction es generalizing acked with
  | nil => rw [List.map_nil, List.append_nil]; rfl
  | cons e es ih =>
      rw [List.foldlM_cons, record]
      exact (ih _).trans (by rw [List.map_cons, List.append_assoc]; rfl)

/-- What an ACK frame does that the sender accepts. -/
structure Accepts (t t' : Tracked (List Int)) (fr : AckFrame) : Prop where
  processed : t'.conn = t.conn ++ (t.base.rtb.acked fr).reverse.map RtbTx.Entry.pktNum
  thinned : Thinned t.base.rtb t'.base.rtb
  gone : ∀ e ∈ t'.base.rtb.ents, covers fr e.pktNum = false
  lastPktNum : t'.base.lastPktNum = t.base.lastPktNum

namespace SpaceInv

variable {t t' : Tracked (List Int)}

theorem accepts (h : SpaceInv t) {fr : AckFrame} {l : Loss}
    (hstep : t.step record (.rtb (.recvAck fr l)) = .ok t') : Accepts t t' fr ∧ SpaceInv t' := by
  have htracked : t'.Inv := Tracked.step_inv record (.rtb (.recvAck fr l)) h.tracked trivial hstep
  have hspec := Rtb.recvAckProcess_spec record h.tracked.base.sound h.tracked.sent t.conn fr l
  obtain ⟨res, hres, hok⟩ := bind_ok hstep
  cases hok
  rw [hres] at hspec
  have hconn := hspec.processed
  rw [record_foldlM, Except.ok.injEq] at hconn
  obtain ⟨removed, hsound, hents, hcc, hnone, hsome⟩ := hspec.removed
  have hremoved : Thinned t.base.rtb removed := by
    apply Thinned.of_subset
    rw [hents]
    exact List.filter_subset_self _
  have hleft : Thinned removed res.rtb ∧ res.rtb.ccPktNum = removed.ccPktNum := by
    by_cases hzero : res.numAcked = 0
    · rw [hnone hzero]
      exact ⟨Thinned.of_subset (List.Subset.refl _), rfl⟩
    · exact ⟨thinned_of_detected (hsome hzero), (hsome hzero).ccPktNum⟩
  have hgone : ∀ e ∈ res.rtb.ents, covers fr e.pktNum = false := by
    intro e he
    obtain ⟨a, ha, hnum, -⟩ := hleft.1 e he
    rw [hents, List.mem_filter] at ha
    rw [← hnum]
    simpa using ha.2
  have hthinned := hremoved.trans hleft.1
  refine ⟨⟨hconn.symm, hthinned, hgone, rfl⟩, htracked, ?_, ?_, ?_, ?_⟩
  · simp only
    rw [hleft.2, hcc]
    exact h.ccPktNum
  · simp only
    rw [← hconn]
    refine List.nodup_append.mpr ⟨h.once, ?_, ?_⟩
    · have hdesc := (h.tracked.base.sound.ordered.sublist
        (List.filter_sublist (p := fun e : RtbTx.Entry => covers fr e.pktNum))).desc
      rw [List.map_reverse]
      apply List.nodup_reverse.mpr
      exact List.pairwise_map.mpr (hdesc.imp fun hlt heq => absurd hlt (by omega))
    · rintro n hn m hm rfl
      obtain ⟨e, he, rfl⟩ := List.mem_map.mp hm
      exact h.apart e (List.mem_filter.mp (List.mem_reverse.mp he)).1 hn
  · simp only
    rw [← hconn]
    intro n hn
    obtain hn | hn := List.mem_append.mp hn
    · exact h.used n hn
    · obtain ⟨e, he, rfl⟩ := List.mem_map.mp hn
      exact h.tracked.base.used e (List.mem_filter.mp (List.mem_reverse.mp he)).1
  · simp only
    rw [← hconn]
    intro e he hin
    obtain ⟨a, ha, hnum, -⟩ := hthinned e he
    obtain hin | hin := List.mem_append.mp hin
    · rw [← hnum] at hin
      exact h.apart a ha hin
    · obtain ⟨b, hb, heq⟩ := List.mem_map.mp hin
      have hcovers := (List.mem_filter.mp (List.mem_reverse.mp hb)).2
      rw [heq, hgone e he] at hcovers
      cases hcovers

/-- A frame is accepted if it acknowledges no skipped packet number, and rejected otherwise. -/
theorem recvAck (h : SpaceInv t) (fr : AckFrame) (l : Loss) :
    ((∀ e ∈ t.base.rtb.acked fr, e.sent.skip = false) → ∃ t', t.step record (.rtb (.recvAck fr l)) = .ok t') ∧
    ((∃ e ∈ t.base.rtb.acked fr, e.sent.skip = true) →
      t.step record (.rtb (.recvAck fr l)) = .error (.failed .proto)) := by
  have hspec := Rtb.recvAckProcess_spec record h.tracked.base.sound h.tracked.sent t.conn fr l
  rw [Tracked.step]
  cases hres : recvAckProcess record t.base.rtb t.rst t.conn fr l with
  | ok res =>
      rw [hres] at hspec
      refine ⟨fun _ => ⟨_, rfl⟩, ?_⟩
      rintro ⟨e, he, hskip⟩
      rw [hspec.unskipped e he] at hskip
      cases hskip
  | error stop =>
      rw [hres] at hspec
      obtain ⟨rfl, e, he, hskip⟩ | ⟨-, rv, hfails, -⟩ := hspec
      · refine ⟨fun hall => ?_, fun _ => rfl⟩
        rw [hall e he] at hskip
        cases hskip
      · rw [record_foldlM] at hfails
        cases hfails

end SpaceInv

/-- The next packet number to skip lies behind the packet and is either a packet number or none. -/
theorem SkipPkt.update_spec {p : SkipPkt} {lastPktNum : Int} (hp : p.nextPktNum ≠ int64Max)
    (hlast : lastPktNum < maxPktNum) (r : Fin 256) :
    ∃ p', p.update lastPktNum r = .ok p' ∧ lastPktNum + 1 < p'.nextPktNum ∧
      (p'.nextPktNum ≤ maxPktNum ∨ p'.nextPktNum = int64Max) := by
  have hmax : (maxPktNum : Int) + 1 < int64Max := by decide
  rw [SkipPkt.update, if_neg hp]
  have hpos : 0 < (r.val + 1) * 2 ^ p.exponent := Nat.mul_pos (Nat.succ_pos _) (Nat.two_pow_pos _)
  split
  · exact ⟨{ p with nextPktNum := int64Max }, rfl, by simp only; omega, Or.inr rfl⟩
  · simp only
    split
    · exact ⟨⟨int64Max, p.exponent + 1⟩, rfl, by simp only; omega, Or.inr rfl⟩
    · exact ⟨_, rfl, by simp only; omega, Or.inl (by simp only; omega)⟩

/-- A skipped packet number in the buffer is none of a packet that went out. -/
structure SenderInv (initialPktNum : Nat) (s : Sender) : Prop where
  space : SpaceInv s.space
  initial : (initialPktNum : Int) ≤ s.lastPktNum + 1
  bounded : s.lastPktNum ≤ maxPktNum
  skip : ∀ p ∈ s.skip, s.lastPktNum < p.nextPktNum ∧ (p.nextPktNum ≤ maxPktNum ∨ p.nextPktNum = int64Max)
  sent : ∀ x ∈ s.sent, initialPktNum ≤ x ∧ (x : Int) ≤ s.lastPktNum
  unskipped : ∀ e ∈ s.space.base.rtb.ents, e.sent.skip = true → ∀ x ∈ s.sent, (x : Int) ≠ e.pktNum

namespace SenderInv

variable {initialPktNum : Nat} {s s' : Sender}

/-- Nothing is sent, and no entry of the buffer becomes a skipped one. -/
theorem of_thinned (h : SenderInv initialPktNum s) {t : Tracked (List Int)} (hspace : SpaceInv t)
    (hthinned : Thinned s.space.base.rtb t.base.rtb) (hlast : t.base.lastPktNum = s.lastPktNum) :
    SenderInv initialPktNum { s with space := t } := by
  have hlast' : Sender.lastPktNum { s with space := t } = s.lastPktNum := hlast
  refine ⟨hspace, ?_, ?_, ?_, ?_, ?_⟩
  · rw [hlast']
    exact h.initial
  · rw [hlast']
    exact h.bounded
  · rw [hlast']
    exact h.skip
  · rw [hlast']
    exact h.sent
  · intro e he hskip x hx
    obtain ⟨a, ha, hnum, heq⟩ := hthinned e he
    rw [← hnum]
    exact h.unskipped a ha (heq.trans hskip) x hx

theorem handleSkipPkt (h : SenderInv initialPktNum s) (hnext : s.nextPktNum ≤ maxPktNum) (ts : Nat) (r : Fin 256) :
    ∃ s', s.handleSkipPkt ts r = .ok s' ∧ SenderInv initialPktNum s' ∧ (∀ p ∈ s'.skip, s'.lastPktNum + 1 < p.nextPktNum) ∧
      s'.lastPktNum + 1 ≤ maxPktNum ∧ s'.sent = s.sent ∧ s'.space.conn = s.space.conn := by
  rw [Sender.handleSkipPkt]
  rw [Sender.nextPktNum] at hnext
  cases hskip : s.skip with
  | none =>
      rw [hskip] at hnext
      refine ⟨s, rfl, h, ?_, hnext, rfl, rfl⟩
      rw [hskip]
      exact fun p hp => absurd hp (Option.not_mem_none p)
  | some p =>
      obtain ⟨hlt, hbound⟩ := h.skip p hskip
      simp only [hskip, Option.any_some, decide_eq_true_eq] at hnext ⊢
      by_cases heq : s.lastPktNum + 1 = p.nextPktNum
      · rw [if_pos heq] at hnext
        rw [if_neg (not_not_intro heq)]
        obtain ⟨t, hstep, hspace, hents, hlast, hconn⟩ := @SpaceInv.add s.space h.space .oneRtt ts 0 ⟨false, false, false, false, true⟩
        have heq' : p.nextPktNum = s.space.base.lastPktNum + 1 := heq.symm
        rw [heq', hstep]
        have hne : p.nextPktNum ≠ int64Max := by
          have hmax : (maxPktNum : Int) + 1 < int64Max := by decide
          omega
        have hlast' : t.base.lastPktNum = s.lastPktNum + 1 := hlast
        obtain ⟨p', hupdate, hbehind, hbound'⟩ := @SkipPkt.update_spec p t.base.lastPktNum hne (by omega) r
        refine ⟨⟨t, some p', s.sent⟩, ?_, ⟨hspace, ?_, ?_, ?_, ?_, ?_⟩, ?_, ?_, rfl, hconn⟩
        · simp only [bind, Except.bind]
          rw [hupdate]
        · have := h.initial
          simp only [Sender.lastPktNum] at *
          omega
        · simp only [Sender.lastPktNum] at *
          omega
        · rintro q hq
          cases hq
          refine ⟨?_, hbound'⟩
          simp only [Sender.lastPktNum] at *
          omega
        · intro x hx
          obtain ⟨hge, hle⟩ := h.sent x hx
          refine ⟨hge, ?_⟩
          simp only [Sender.lastPktNum] at *
          omega
        · rw [hents]
          refine List.forall_mem_cons.mpr ⟨?_, h.unskipped⟩
          intro _ x hx
          obtain ⟨-, hle⟩ := h.sent x hx
          simp only [Sender.lastPktNum, RtbTx.Entry.init] at *
          omega
        · rintro q hq
          cases hq
          exact hbehind
        · simp only [Sender.lastPktNum] at *
          omega
      · rw [if_neg heq] at hnext
        rw [if_pos heq]
        refine ⟨s, rfl, h, ?_, hnext, rfl, rfl⟩
        rw [hskip]
        rintro q hq
        cases hq
        omega

/-- The packet number behind the last one goes to a packet that went out. -/
theorem sends (h : SenderInv initialPktNum s) (hskip : ∀ p ∈ s.skip, s.lastPktNum + 1 < p.nextPktNum)
    (hbound : s.lastPktNum + 1 ≤ maxPktNum) {t : Tracked (List Int)} (hspace : SpaceInv t)
    (hlast : t.base.lastPktNum = s.lastPktNum + 1)
    (hents : ∀ e ∈ t.base.rtb.ents, e.sent.skip = true → e ∈ s.space.base.rtb.ents) :
    SenderInv initialPktNum { s with
      space := t
      sent := (s.lastPktNum + 1).toNat :: s.sent } := by
  have hlast' : Sender.lastPktNum ⟨t, s.skip, (s.lastPktNum + 1).toNat :: s.sent⟩ = s.lastPktNum + 1 := hlast
  have hinitial := h.initial
  refine ⟨hspace, ?_, ?_, ?_, ?_, ?_⟩
  · rw [hlast']
    omega
  · rw [hlast']
    exact hbound
  · rw [hlast']
    exact fun p hp => ⟨hskip p hp, (h.skip p hp).2⟩
  · rw [hlast']
    refine List.forall_mem_cons.mpr ⟨by omega, ?_⟩
    intro x hx
    obtain ⟨hge, hle⟩ := h.sent x hx
    exact ⟨hge, by omega⟩
  · intro e he hflag
    have hold := hents e he hflag
    have hused := h.space.tracked.base.used e hold
    refine List.forall_mem_cons.mpr ⟨?_, h.unskipped e hold hflag⟩
    simp only [Sender.lastPktNum] at *
    omega

theorem writePkt (h : SenderInv initialPktNum s) (hnext : s.nextPktNum ≤ maxPktNum) (ts : Nat) (r : Fin 256)
    (w : Written) :
    ∃ s', s.writePkt ts r w = .ok s' ∧ SenderInv initialPktNum s' ∧ s.sent ⊆ s'.sent ∧ s'.space.conn = s.space.conn := by
  obtain ⟨s₁, hhandle, h₁, hskip, hbound, hsent, hconn⟩ := h.handleSkipPkt hnext ts r
  rw [Sender.writePkt, hhandle, ← hsent, ← hconn]
  cases w with
  | nothing => exact ⟨s₁, rfl, h₁, List.Subset.refl _, rfl⟩
  | untracked =>
      refine ⟨_, rfl, h₁.sends hskip hbound h₁.space.skipOne rfl (fun e he _ => he), List.subset_cons_self _ _, rfl⟩
  | tracked type pktlen retransmittable ackEliciting ptoEliciting pmtudProbe =>
      obtain ⟨t, hstep, hspace, hents, hlast, hconn'⟩ := @SpaceInv.add s₁.space h₁.space type ts pktlen
        ⟨retransmittable, ackEliciting, ptoEliciting, pmtudProbe, false⟩
      refine ⟨⟨t, s₁.skip, (s₁.lastPktNum + 1).toNat :: s₁.sent⟩, ?_, h₁.sends hskip hbound hspace hlast ?_,
        List.subset_cons_self _ _, hconn'⟩
      · simp only [bind, Except.bind, Sender.send, Sender.lastPktNum]
        rw [hstep]
      · rw [hents]
        refine List.forall_mem_cons.mpr ⟨?_, fun e he _ => he⟩
        intro hflag
        cases hflag

end SenderInv

namespace Net

/-- What goes through the network was sent, and what comes back was received. -/
structure Inv (s : Net) : Prop where
  sender : SenderInv s.initialPktNum s.sender
  receiver : ReceiverInv s.receiver
  delivered : s.receiver.committed ⊆ s.sender.sent
  processed : ∀ n ∈ s.sender.space.conn, ∃ x ∈ s.receiver.committed, (x : Int) = n
  acks : ∀ fr ∈ s.acks, AckSound s.receiver.committed fr

variable {s : Net}

/-- The sender's buffer changes, and nothing is acknowledged. -/
theorem Inv.sender_same (h : Inv s) {sender : Sender} (hsender : SenderInv s.initialPktNum sender)
    (hsent : s.sender.sent ⊆ sender.sent) (hconn : sender.space.conn = s.sender.space.conn) :
    Inv { s with sender := sender } := by
  refine ⟨hsender, h.receiver, fun x hx => hsent (h.delivered hx), ?_, h.acks⟩
  simp only
  rw [hconn]
  exact h.processed

theorem Inv.receiver_same (h : Inv s) {acktr : Acktr} (hreceiver : ReceiverInv { s.receiver with acktr := acktr }) :
    Inv { s with receiver := { s.receiver with acktr := acktr } } :=
  ⟨h.sender, hreceiver, h.delivered, h.processed, h.acks⟩

/-- A frame on its way is valid, acknowledges nothing that was not sent, and no skipped packet number. -/
theorem Inv.honest (h : Inv s) {fr : AckFrame} (hfr : fr ∈ s.acks) :
    validateAck fr s.initialPktNum = .ok () ∧ ¬s.sender.lastPktNum < fr.largestAck ∧
      ∀ e ∈ s.sender.space.base.rtb.acked fr, ∃ x ∈ s.receiver.committed, (x : Int) = e.pktNum ∧ e.sent.skip = false := by
  obtain ⟨hvalid, hack⟩ := h.acks fr hfr
  have hsent : ∀ x, fr.Acknowledges x → s.initialPktNum ≤ x ∧ (x : Int) ≤ s.sender.lastPktNum := fun x hx =>
    h.sender.sent x (h.delivered (hack x hx))
  refine ⟨validateAck_above hvalid fun x hx => (hsent x hx).1, ?_, ?_⟩
  · have hlargest := (hsent fr.largestAck (Or.inl (by omega))).2
    omega
  · intro e he
    obtain ⟨hmem, hcovers⟩ := List.mem_filter.mp he
    obtain ⟨x, hx, hacked⟩ := covers_acknowledges hvalid hcovers
    refine ⟨x, hack x hacked, hx, ?_⟩
    cases hskip : e.sent.skip with
    | false => rfl
    | true => exact absurd hx (h.sender.unskipped e hmem hskip x (h.delivered (hack x hacked)))

theorem recvAck_valid {fr : AckFrame} {l : Loss} (hvalid : validateAck fr s.initialPktNum = .ok ())
    (hlargest : ¬s.sender.lastPktNum < fr.largestAck) {t : Tracked (List Int)}
    (hstep : s.sender.space.step record (.rtb (.recvAck fr l)) = .ok t) :
    s.recvAck fr l = .ok { s with sender := { s.sender with space := t } } := by
  rw [recvAck, hvalid]
  simp only
  rw [if_neg hlargest, hstep]
  rfl

theorem Inv.recvAck (h : Inv s) {fr : AckFrame} (hfr : fr ∈ s.acks) (l : Loss) :
    ∃ s', s.recvAck fr l = .ok s' ∧ Accepts s.sender.space s'.sender.space fr ∧ Inv s' := by
  obtain ⟨hvalid, hlargest, hacked⟩ := h.honest hfr
  have hunskipped : ∀ e ∈ s.sender.space.base.rtb.acked fr, e.sent.skip = false := by
    intro e he
    obtain ⟨x, -, -, hskip⟩ := hacked e he
    exact hskip
  obtain ⟨t, hstep⟩ := (h.sender.space.recvAck fr l).1 hunskipped
  obtain ⟨haccepts, hspace⟩ := h.sender.space.accepts hstep
  refine ⟨_, recvAck_valid hvalid hlargest hstep, haccepts, ?_⟩
  refine ⟨h.sender.of_thinned hspace haccepts.thinned haccepts.lastPktNum, h.receiver, h.delivered, ?_, h.acks⟩
  simp only
  rw [haccepts.processed]
  intro n hn
  obtain hn | hn := List.mem_append.mp hn
  · exact h.processed n hn
  · obtain ⟨e, he, rfl⟩ := List.mem_map.mp hn
    obtain ⟨x, hx, heq, -⟩ := hacked e (List.mem_reverse.mp he)
    exact ⟨x, hx, heq⟩

theorem step_inv (s : Net) (e : Event) (h : Inv s) (ha : s.Allowed e) : ∃ s', s.step e = .ok s' ∧ Inv s' := by
  cases e with
  | write ts r w =>
      obtain ⟨sender, hrun, hsender, hsent, hconn⟩ := h.sender.writePkt ha ts r w
      refine ⟨{ s with sender := sender }, ?_, h.sender_same hsender hsent hconn⟩
      rw [step, hrun]
      rfl
  | recovery op =>
      obtain ⟨t, hrun, hspace, hthinned, hlast, hconn⟩ := h.sender.space.recovery ha
      refine ⟨{ s with sender := { s.sender with space := t } }, ?_,
        h.sender_same (h.sender.of_thinned hspace hthinned hlast) (List.Subset.refl _) hconn⟩
      rw [step, hrun]
      rfl
  | delivered bytes =>
      obtain ⟨t, hrun, hspace, hbase, hconn⟩ := h.sender.space.delivered bytes
      have hthinned : Thinned s.sender.space.base.rtb t.base.rtb := by
        rw [hbase]
        exact Thinned.of_subset (List.Subset.refl _)
      have hlast : t.base.lastPktNum = s.sender.lastPktNum := by
        rw [hbase]
        rfl
      refine ⟨{ s with sender := { s.sender with space := t } }, ?_,
        h.sender_same (h.sender.of_thinned hspace hthinned hlast) (List.Subset.refl _) hconn⟩
      rw [step, hrun]
      rfl
  | recvPkt pktNum ecn requireAck ts =>
      obtain ⟨p, hrun, hreceiver, hnew, hold⟩ := h.receiver.recv pktNum ecn requireAck ts
      refine ⟨{ s with receiver := p }, ?_, h.sender, hreceiver, ?_, ?_, fun fr hfr => (h.acks fr hfr).mono hold⟩
      · rw [step, hrun]
        rfl
      · intro x hx
        obtain rfl | hx := List.mem_cons.mp (hnew hx)
        · exact ha
        · exact h.delivered hx
      · intro n hn
        obtain ⟨x, hx, heq⟩ := h.processed n hn
        exact ⟨x, hold hx, heq⟩
  | createAckFrame oneRtt ts ackDelay ackDelayExponent =>
      obtain ⟨fr, a, hrun, hreceiver, hsound⟩ := h.receiver.createAckFrame oneRtt ts ackDelay ackDelayExponent
      refine ⟨{ s with receiver := { s.receiver with acktr := a }, acks := fr.toList ++ s.acks }, ?_, h.sender, hreceiver,
        h.delivered, h.processed, ?_⟩
      · rw [step, hrun]
        rfl
      · intro f hf
        obtain hf | hf := List.mem_append.mp hf
        · exact hsound f (Option.mem_toList.mp hf)
        · exact h.acks f hf
  | commitAck pktNum largestAck => exact ⟨_, rfl, h.receiver_same (h.receiver.acktr (h.receiver.sound.same rfl rfl))⟩
  | ackAcked largestAck firstAckRange ranges =>
      obtain ⟨a, hrun, hsound⟩ := @AckState.Sound.recvAck _ h.receiver.sound largestAck firstAckRange ranges
      refine ⟨{ s with receiver := { s.receiver with acktr := a } }, ?_, h.receiver_same (h.receiver.acktr hsound)⟩
      rw [step, PktnsRx.step, show s.receiver.acktr.recvAck largestAck firstAckRange ranges = .ok a from hrun]
      rfl
  | recvAck fr l =>
      obtain ⟨s', hrun, -, hinv⟩ := h.recvAck ha l
      exact ⟨s', hrun, hinv⟩

theorem init_inv {initialPktNum : Nat} (hinitial : initialPktNum < 2 ^ 31) (skip : Option (Fin 256)) :
    ∃ s, init initialPktNum skip = .ok s ∧ Inv s := by
  have hmax : (2 : Int) ^ 31 < maxPktNum := by decide
  have hspace : SpaceInv ⟨⟨.init initialPktNum 0, initialPktNum - 1⟩, .init, []⟩ := by
    have hbase := (State.init_inv initialPktNum 0).sound
    refine ⟨⟨⟨hbase, ?_⟩, Rtb.Sent.none _ ?_⟩, ?_, List.nodup_nil, ?_, ?_⟩
    · exact fun e he => absurd he List.not_mem_nil
    · exact fun e he => absurd he List.not_mem_nil
    · simp only [Rtb.init]
      omega
    · exact fun n hn => absurd hn List.not_mem_nil
    · exact fun e he => absurd he List.not_mem_nil
  have hnone : ∀ skip : Option SkipPkt,
      (∀ p ∈ skip, (initialPktNum : Int) - 1 < p.nextPktNum ∧ (p.nextPktNum ≤ maxPktNum ∨ p.nextPktNum = int64Max)) →
      Inv ⟨initialPktNum, ⟨⟨⟨.init initialPktNum 0, initialPktNum - 1⟩, .init, []⟩, skip, []⟩, .new, []⟩ := by
    intro skip hskip
    refine ⟨⟨hspace, ?_, ?_, hskip, ?_, ?_⟩, ⟨new_inv, AckState.new_sound⟩, List.Subset.refl _, ?_, ?_⟩
    · simp only [Sender.lastPktNum]
      omega
    · simp only [Sender.lastPktNum]
      omega
    · exact fun x hx => absurd hx List.not_mem_nil
    · exact fun e he => absurd he List.not_mem_nil
    · exact fun n hn => absurd hn List.not_mem_nil
    · exact fun fr hfr => absurd hfr List.not_mem_nil
  cases skip with
  | none => exact ⟨_, rfl, hnone none fun p hp => absurd hp (Option.not_mem_none p)⟩
  | some r =>
      obtain ⟨p, hupdate, hbehind, hbound⟩ := @SkipPkt.update_spec ⟨0, 0⟩ (initialPktNum - 1) (by decide) (by omega) r
      refine ⟨_, ?_, hnone (some p) ?_⟩
      · rw [init, Option.mapM_some, hupdate]
        rfl
      · rintro q hq
        cases hq
        exact ⟨by omega, hbound⟩

/-- What the sender and the receiver know of each other. -/
structure Honest (s : Net) : Prop where
  delivered : ∀ x ∈ s.receiver.committed, x ∈ s.sender.sent
  once : s.sender.space.conn.Nodup
  processed : ∀ n ∈ s.sender.space.conn, ∃ x ∈ s.receiver.committed, (x : Int) = n
  accepted : ∀ fr ∈ s.acks, ∀ l, ∃ s', s.recvAck fr l = .ok s' ∧ Accepts s.sender.space s'.sender.space fr
  caught : ∀ fr l, validateAck fr s.initialPktNum = .ok () →
    (∃ e ∈ s.sender.space.base.rtb.acked fr, e.sent.skip = true) → s.recvAck fr l = .error (.stop (.failed .proto))

theorem Inv.caught (h : Inv s) {fr : AckFrame} (l : Loss) (hvalid : validateAck fr s.initialPktNum = .ok ())
    (hskip : ∃ e ∈ s.sender.space.base.rtb.acked fr, e.sent.skip = true) :
    s.recvAck fr l = .error (.stop (.failed .proto)) := by
  rw [Net.recvAck, hvalid]
  simp only
  split
  · rfl
  · rw [(h.sender.space.recvAck fr l).2 hskip]
    rfl

def packet (ts : Nat) : Event :=
  .write ts 0 (.tracked .oneRtt 100 true true true false)

/-- The packet number 3 is skipped. The packets 4 and 1 arrive, one of them twice, and so does the ACK frame. -/
def skipsOne : List Event :=
  [packet 1, packet 2, packet 3, packet 4, .write 5 0 .untracked, .recvPkt 4 0 true 7, .recvPkt 1 0 true 7,
    .recvPkt 4 0 true 8, .createAckFrame true 8 0 3, .recovery (.reclaimOnPto (fun _ => 1) 1),
    .recvAck ⟨none, 4, 0, 0, 1, [⟨1, 0⟩]⟩ ⟨10, 1000, 1000, 500, 0, 0, 1200, true⟩,
    .recvAck ⟨none, 4, 0, 0, 1, [⟨1, 0⟩]⟩ ⟨12, 1000, 1000, 500, 0, 0, 1200, true⟩]

end Net

end Zngtcp2.AckNet
