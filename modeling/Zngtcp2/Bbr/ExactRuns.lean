import Zngtcp2.Bbr.Exact

namespace Zngtcp2.Bbr.Conn

open Lib.Run
open RateSample (Rst seconds)

/-- Delivery rates are below 100 Gbit/s, RTT samples below a second, and ACK frames at most 30 seconds apart. -/
def Bounded (c : Conn) : Event → Prop
  | .measure stat _ => stat.deliveryRateSec < maxRate
  | .ackRecv ack => (ack.rtt = ⊤ ∨ ack.rtt < (seconds : WithTop Nat)) ∧ ∀ t ∈ c.ackTs, c.now ≤ 30 * seconds + t
  | _ => True

/-- What a step within the bounds may do. -/
def Within (c : Conn) (i : Nat × Event) : Prop :=
  c.Allowed i ∧ Bounded { c with now := i.1 } i.2

/-- An ACK frame that delivers something comes before the bandwidth times the time since the interval began fills a word,
and a packet lost while probing for bandwidth was sent with less than half a word in flight and not too long before. -/
def Fits (c : Conn) : Nat × Event → Prop
  | (ts, .ackRecv ack) =>
      ack.bytesDelivered ≠ 0 → c.cc.bbr.bw = 0 ∨ ts - c.cc.bbr.extraAckedIntervalStart ≤ (2 ^ 64 - 1) / c.cc.bbr.bw
  | (_, .pktLost pkt) =>
      c.cc.bbr.bwProbeSamples = true →
        c.cc.rst.lost + pkt.pktlen - pkt.lost ≤ (2 ^ 64 - 1) / 100 ∧ pkt.txInFlight < 2 ^ 63
  | _ => True

instance decidableBounded (c : Conn) (ev : Event) : Decidable (c.Bounded ev) :=
  match ev with
  | .measure .. => inferInstanceAs (Decidable (_ < _))
  | .ackRecv _ => inferInstanceAs (Decidable ((_ ∨ _) ∧ ∀ t ∈ c.ackTs, c.now ≤ 30 * seconds + t))
  | .pktSent .. | .pktLost _ | .congestionEvent _ | .spuriousCongestion | .persistentCongestion | .reset .. => .isTrue trivial

instance (c : Conn) (i : Nat × Event) : Decidable (c.Within i) :=
  inferInstanceAs (Decidable (_ ∧ _))

variable {c c' : Conn}

/-- A product fits a word if the second factor is below the quotient. -/
theorem fits_iff {a b : Nat} : a * b < 2 ^ 64 ↔ a = 0 ∨ b ≤ (2 ^ 64 - 1) / a := by
  obtain rfl | ha := Nat.eq_zero_or_pos a
  · simp
  · rw [Nat.le_div_iff_mul_le ha, Nat.mul_comm b a]
    have hne : a ≠ 0 := Nat.ne_of_gt ha
    simp only [hne, false_or]
    exact Nat.lt_iff_le_pred (by decide)

/-- The bounds are kept, and the products stay exact if and only if the event fits. -/
def Tells (c : Conn) (fits : Prop) (c' : Conn) : Prop :=
  c'.cc.rates.Inv c'.now ∧ (c'.cc.exact = true ↔ c.cc.exact = true ∧ fits)

theorem tells_of_exact (hi : c'.cc.rates.Inv c'.now) (hexact : c'.cc.exact = c.cc.exact) : Tells c True c' := by
  refine ⟨hi, ?_⟩
  rw [hexact, and_true]

theorem pktSent_tells (h : c.cc.rates.Inv c.now) (pktlen : Nat) (ackEliciting : Bool) :
    Ends (fun _ => True) (Tells c True) (c.pktSent pktlen ackEliciting) := by
  have hsent : Ends (fun _ => True) (fun cc => cc.rates.Inv c.now ∧ cc.exact = c.cc.exact) (c.tellPktSent ackEliciting) := by
    rw [tellPktSent]
    split
    · exact Cc.onPktSent_exact h
    · exact ⟨h, rfl⟩
  apply Ends.bind hsent
  rintro cc ⟨hi, hexact⟩
  exact tells_of_exact hi hexact

theorem pktLost_tells (h : c.cc.rates.Inv c.now) (pkt : CcPkt) :
    Ends (fun _ => True) (Tells c (c.Fits (c.now, .pktLost pkt))) (c.pktLost pkt) := by
  apply Ends.bind (Cc.onPktLost_exact (c := { c.cc with rst.lost := c.cc.rst.lost + pkt.pktlen }) h pkt)
  rintro cc ⟨hi, hexact⟩
  have hlost (lost : Nat) : lost * 100 < 2 ^ 64 ↔ lost ≤ (2 ^ 64 - 1) / 100 := by omega
  have htx (txInFlight : Nat) : txInFlight * 2 < 2 ^ 64 ↔ txInFlight < 2 ^ 63 := by omega
  exact ⟨hi, hexact.trans (and_congr_right fun _ => imp_congr_right fun _ => and_congr (hlost _) (htx _))⟩

theorem ackRecv_tells (h : c.cc.rates.Inv c.now) (hnow : c.now < uint64Max) {ack : CcAck} (hb : c.Bounded (.ackRecv ack)) :
    Ends (fun _ => True) (Tells c (c.Fits (c.now, .ackRecv ack))) (c.event (.ackRecv ack)) := by
  have hrtt : ∀ rtt : Nat, ack.rtt = rtt → rtt < seconds := by
    intro rtt heq
    rw [Bounded, heq] at hb
    exact WithTop.coe_lt_coe.mp (hb.1.resolve_left WithTop.coe_ne_top)
  apply Ends.bind (Cc.onAckRecv_exact h (hnow.trans (by decide)) hrtt)
  rintro cc ⟨hi, hexact⟩
  exact ⟨hi, hexact.trans (and_congr_right fun _ => imp_congr_right fun _ => fits_iff)⟩

theorem reset_tells (h : c.cc.rates.Inv c.now) (size cwnd smoothedRtt : Nat) :
    Ends (fun _ => True) (Tells c True) (c.reset size cwnd smoothedRtt) := by
  have hinit := Cc.onInit_exact (c := { c.cc with stat := .reset size cwnd smoothedRtt }) c.now rfl (by decide : 0 < maxRate)
    h.lost h.txInFlight
  apply Ends.bind hinit
  rintro cc ⟨hi, hexact⟩
  exact tells_of_exact { hi with lost := rfl, txInFlight := rfl } hexact

theorem event_tells (h : c.cc.rates.Inv c.now) (hnow : c.now < uint64Max) {ev : Event} (hb : c.Bounded ev) :
    Ends (fun _ => True) (Tells c (c.Fits (c.now, ev))) (c.event ev) := by
  cases ev with
  | measure stat rst => exact tells_of_exact { h with deliveryRateSec := hb } rfl
  | pktSent pktlen ackEliciting => exact pktSent_tells h pktlen ackEliciting
  | pktLost pkt => exact pktLost_tells h pkt
  | ackRecv ack => exact ackRecv_tells h hnow hb
  | congestionEvent sentTs =>
      have hrates : (c.cc.congestionEvent c.now sentTs).rates = c.cc.rates := Cc.rates_congestionEvent sentTs
      have hkeeps := h.keeps hrates
      exact tells_of_exact hkeeps.inv hkeeps.exact
  | spuriousCongestion =>
      apply Ends.bind (Cc.onSpuriousCongestion_exact h)
      exact fun cc hkeeps => tells_of_exact hkeeps.inv hkeeps.exact
  | persistentCongestion =>
      have hkeeps := h.keeps (Cc.rates_onPersistentCongestion (c := c.cc))
      exact tells_of_exact hkeeps.inv hkeeps.exact
  | reset size cwnd smoothedRtt => exact reset_tells h size cwnd smoothedRtt

theorem step_tells (h : c.cc.rates.Inv c.now) {i : Nat × Event} (hi : c.Within i) (hok : c.step i = .ok c') :
    Tells c (c.Fits i) c' := by
  obtain ⟨ts, ev⟩ := i
  have hnow : { c with now := ts }.cc.rates.Inv ts := { h with start := h.start.trans hi.1.1 }
  have hends := event_tells hnow hi.1.2.1 hi.2
  rw [show event { c with now := ts } ev = .ok c' from hok] at hends
  cases ev <;> exact hends

theorem init_exact {size cwnd smoothedRtt initialTs : Nat} {pcg : Nat → Nat}
    (hinit : init size cwnd smoothedRtt initialTs pcg = .ok c) : c.cc.rates.Inv c.now ∧ c.cc.exact = true := by
  have hends : Ends (fun _ => True) (fun c : Conn => c.cc.rates.Inv c.now ∧ c.cc.exact = true)
      (init size cwnd smoothedRtt initialTs pcg) := by
    apply Ends.bind (Cc.onInit_exact initialTs rfl (by decide : 0 < maxRate) rfl rfl)
    exact fun cc hcc => hcc
  rwa [hinit] at hends

/-- In every run within the bounds the products are exact if and only if the steps fit. -/
theorem run_exact_iff {size cwnd smoothedRtt initialTs : Nat} {pcg : Nat → Nat}
    (hinit : init size cwnd smoothedRtt initialTs pcg = .ok c) {is : List (Nat × Event)} (hg : Guarded step Within c is)
    (hrun : run step c is = .ok c') : c'.cc.exact = true ↔ Guarded step Fits c is := by
  obtain ⟨hi, hexact⟩ := init_exact hinit
  have hstep : ∀ (c : Conn) (i : Nat × Event) (c' : Conn), c.cc.rates.Inv c.now → c.Within i → c.step i = .ok c' →
      c'.cc.rates.Inv c'.now ∧ (c'.cc.exact = true ↔ c.cc.exact = true ∧ c.Fits i) :=
    fun c i c' h hw hok => step_tells h hw hok
  rw [hg.run_iff hstep hi hrun, hexact]
  simp only [true_and]

/-- Ten packets are acknowledged at a gigabyte a second, a packet stays in flight, and a probe sent much later is
acknowledged at last. -/
def probeAcked (last : Nat) : List (Nat × Event) :=
  List.replicate 10 (0, .pktSent 1200 true) ++
    [(12000, .measure { Stat.reset 1200 12000 12000 with deliveryRateSec := 1000000000 }
        { Rst.init with delivered := 12000, rs := ⟨12000, 12000, 0, 0, 0, 0, 0, 12000, 9, false⟩ }),
      (12000, .ackRecv ⟨12000, 0, 0, (0 : Nat), (12000 : Nat)⟩),
      (20000, .pktSent 1200 true), (last - 12000, .pktSent 1200 true),
      (last, .measure { Stat.reset 1200 12000 12000 with deliveryRateSec := 65, bytesInFlight := 1200 }
        { Rst.init with delivered := 13200, rs := ⟨18446744062, 1200, 12000, 12000, 0, 0, 0, 18446744062, 11, false⟩ }),
      (last, .ackRecv ⟨1200, 12000, 0, (last - 12000 : Nat), (12000 : Nat)⟩)]

/-- The last nanosecond at which the product fits a word. -/
theorem run_exact_iff_probeAcked : ∃ c c' : Conn, init 1200 12000 333000000 0 (fun _ => 0) = .ok c ∧
    run step c (probeAcked 18446756073) = .ok c' ∧
    (c'.cc.exact = true ↔ Guarded step Fits c (probeAcked 18446756073)) := by
  have hrun : ∃ c ∈ (init 1200 12000 333000000 0 (fun _ => 0)).toOption,
      Guarded step Within c (probeAcked 18446756073) ∧ ((run step c (probeAcked 18446756073)).toOption).isSome := by
    decide +kernel
  obtain ⟨c, hinit, hg, hsome⟩ := hrun
  obtain ⟨c', hrun⟩ := Option.isSome_iff_exists.mp hsome
  have hinit := ok_of_toOption hinit
  have hrun := ok_of_toOption hrun
  exact ⟨c, c', hinit, hrun, run_exact_iff hinit hg hrun⟩

/-- A nanosecond later the product wraps around, and the bytes acknowledged beyond the estimate are too many. -/
theorem run_exact_wraps : ∃ c c' : Conn, init 1200 12000 333000000 0 (fun _ => 0) = .ok c ∧
    Guarded step Within c (probeAcked 18446756074) ∧ run step c (probeAcked 18446756074) = .ok c' ∧
    c'.cc.exact = false ∧ c'.cc.bbr.extraAcked = 13200 := by
  have hrun : ∃ c ∈ (init 1200 12000 333000000 0 (fun _ => 0)).toOption, Guarded step Within c (probeAcked 18446756074) ∧
      ∃ c' ∈ (run step c (probeAcked 18446756074)).toOption, c'.cc.exact = false ∧ c'.cc.bbr.extraAcked = 13200 := by
    decide +kernel
  obtain ⟨c, hinit, hg, c', hrun, hexact, hextra⟩ := hrun
  exact ⟨c, c', ok_of_toOption hinit, hg, ok_of_toOption hrun, hexact, hextra⟩

end Zngtcp2.Bbr.Conn
