import Zngtcp2.Bbr.Safe

namespace Zngtcp2.Bbr

open Lib.Run
open RateSample (Rst)

/-- The controller in its connection: the packets sent since the congestion state was reset last, the present time, and
the time of the last ACK frame, which no function reads. -/
structure Conn where
  cc : Cc
  pkts : List CcPkt
  now : Nat
  ackTs : Option Nat

/-- What happens at a time. -/
inductive Event
  | measure (stat : Stat) (rst : Rst)
  | pktSent (pktlen : Nat) (ackEliciting : Bool)
  | pktLost (pkt : CcPkt)
  | ackRecv (ack : CcAck)
  | congestionEvent (sentTs : Nat)
  | spuriousCongestion
  | persistentCongestion
  | reset (size cwnd smoothedRtt : Nat)

/-- Says whether the event starts the controller anew. -/
def Event.resets : Event → Bool
  | .reset .. => true
  | _ => false

/-- What `conn_reset_conn_stat_cc` sets; the congestion window follows from the size, and the RTT from the settings. -/
def Stat.reset (size cwnd smoothedRtt : Nat) : Stat where
  cwnd := cwnd
  bytesInFlight := 0
  maxTxUdpPayloadSize := size
  deliveryRateSec := 0
  firstRttSampleTs := ⊤
  smoothedRtt := smoothedRtt
  congestionRecoveryStartTs := ⊤
  pacingIntervalM := 0
  sendQuantum := 64 * 1024

namespace Conn

/-- `ngtcp2_cc_bbr_init`, for a new connection -/
def init (size cwnd smoothedRtt initialTs : Nat) (pcg : Nat → Nat) : Except BbrStop Conn := do
  let cc ← Cc.onInit ⟨.start cwnd ⊤ initialTs, .reset size cwnd smoothedRtt, .init, pcg, true, [], 0, []⟩ initialTs
  .ok ⟨cc, [], initialTs, none⟩

variable (c : Conn)

/-- What the rest of the connection writes between the calls: the bytes in flight, the RTT estimate, the delivery rate,
and the rate sample, in which two fields are never written. -/
def measure (stat : Stat) (rst : Rst) : Cc :=
  { c.cc with
    stat.bytesInFlight := stat.bytesInFlight
    stat.deliveryRateSec := stat.deliveryRateSec
    stat.firstRttSampleTs := stat.firstRttSampleTs
    stat.smoothedRtt := stat.smoothedRtt
    rst := { rst with
      lost := c.cc.rst.lost
      rs := { rst.rs with txInFlight := c.cc.rst.rs.txInFlight, lost := c.cc.rst.rs.lost } } }

/-- The part of `conn_on_pkt_sent` that tells the controller, before the packet is added to the bytes in flight. -/
def tellPktSent (ackEliciting : Bool) : Except BbrStop Cc :=
  if ackEliciting then c.cc.onPktSent c.now else .ok c.cc

/-- `conn_on_pkt_sent` -/
def pktSent (pktlen : Nat) (ackEliciting : Bool) : Except BbrStop Conn := do
  let cc ← c.tellPktSent ackEliciting
  let cc := { cc with stat.bytesInFlight := cc.stat.bytesInFlight + pktlen }
  .ok { c with cc := cc, pkts := ⟨pktlen, cc.rst.lost, cc.stat.bytesInFlight, cc.rst.appLimited ≠ 0⟩ :: c.pkts }

/-- The part of `rtb_on_pkt_lost` about a packet that counts. -/
def pktLost (pkt : CcPkt) : Except BbrStop Conn := do
  let cc ← Cc.onPktLost { c.cc with rst.lost := c.cc.rst.lost + pkt.pktlen } c.now pkt
  .ok { c with cc := cc }

/-- `conn_reset_congestion_state`; the packets sent before do not count any more. -/
def reset (size cwnd smoothedRtt : Nat) : Except BbrStop Conn := do
  let cc ← Cc.onInit { c.cc with stat := .reset size cwnd smoothedRtt } c.now
  .ok { c with cc := { cc with rst := cc.rst.reset }, pkts := [] }

def event : Event → Except BbrStop Conn
  | .measure stat rst => .ok { c with cc := c.measure stat rst }
  | .pktSent pktlen ackEliciting => c.pktSent pktlen ackEliciting
  | .pktLost pkt => c.pktLost pkt
  | .ackRecv ack => do
      let cc ← c.cc.onAckRecv ack c.now
      .ok { c with cc := cc, ackTs := some c.now }
  | .congestionEvent sentTs => .ok { c with cc := c.cc.congestionEvent c.now sentTs }
  | .spuriousCongestion => do
      let cc ← c.cc.onSpuriousCongestion
      .ok { c with cc := cc }
  | .persistentCongestion => .ok { c with cc := c.cc.onPersistentCongestion }
  | .reset size cwnd smoothedRtt => c.reset size cwnd smoothedRtt

def step (c : Conn) (i : Nat × Event) : Except BbrStop Conn :=
  { c with now := i.1 }.event i.2

/-- The sizes of a packet that the controller is set up with. -/
def Sized (size cwnd : Nat) : Prop :=
  1200 ≤ size ∧ size ≤ 65527 ∧ size * 4 ≤ cwnd

/-- A packet that is lost counts. -/
def Permits (c : Conn) : Event → Prop
  | .pktLost pkt => pkt ∈ c.pkts
  | .reset size cwnd _ => Sized size cwnd
  | _ => True

/-- The clock does not go back. -/
def Allowed (c : Conn) (i : Nat × Event) : Prop :=
  c.now ≤ i.1 ∧ i.1 < uint64Max ∧ c.Permits i.2

instance (size cwnd : Nat) : Decidable (Sized size cwnd) :=
  inferInstanceAs (Decidable (_ ∧ _ ∧ _))

instance decidablePermits (c : Conn) (ev : Event) : Decidable (c.Permits ev) :=
  match ev with
  | .pktLost _ => inferInstanceAs (Decidable (_ ∈ _))
  | .reset .. => inferInstanceAs (Decidable (Sized _ _))
  | .measure .. | .pktSent .. | .ackRecv _ | .congestionEvent _ | .spuriousCongestion | .persistentCongestion => .isTrue trivial

instance (c : Conn) (i : Nat × Event) : Decidable (c.Allowed i) :=
  inferInstanceAs (Decidable (_ ∧ _ ∧ _))

/-- The loss handler can subtract what is noted of a packet that counts. -/
structure Inv (c : Conn) : Prop where
  core : c.cc.core.Inv c.now
  pkts : ∀ pkt ∈ c.pkts, pkt.pktlen ≤ pkt.txInFlight ∧ pkt.lost ≤ c.cc.rst.lost

/-- What holds between the steps: the stamp of a ProbeBW state is a time at which ProbeBW_DOWN was entered, what is
divided by is not zero, and the window holds four packets. -/
structure Sound (c : Conn) : Prop where
  stamped : c.cc.isInProbeBwState = true → ∃ t ∈ c.cc.downs, c.cc.bbr.cycleStamp = (t : WithTop Nat) ∧ t ≤ c.now
  probeUpCnt : c.cc.bbr.probeUpCnt ≠ 0
  pacingIntervalM : c.cc.stat.pacingIntervalM ≠ 0
  maxTxUdpPayloadSize : c.cc.stat.maxTxUdpPayloadSize ≠ 0
  cwnd : 4 * c.cc.stat.maxTxUdpPayloadSize ≤ c.cc.stat.cwnd

/-- What a step does: it leaves ProbeRTT, other than by a reset, only with a congestion window that has been raised to
the one on entry at least, which is noted in between. -/
structure Steps (c : Conn) (ev : Event) (c' : Conn) : Prop where
  sound : c'.Sound
  stays : ev.resets = false → c.cc.bbr.state = .probeRtt → c'.cc.bbr.state = .probeRtt → c'.cc.entryCwnd = c.cc.entryCwnd
  leaves : ev.resets = false → c.cc.bbr.state = .probeRtt → c'.cc.bbr.state ≠ .probeRtt →
    ∃ cwnd, c'.cc.exits = (c.cc.entryCwnd, cwnd) :: c.cc.exits ∧ c.cc.entryCwnd ≤ cwnd

variable {c : Conn}

theorem Inv.sound (h : Inv c) : Sound c where
  stamped hs := by
    obtain ⟨t, ht, hstamp⟩ := h.core.stamped (Or.inl hs)
    exact ⟨t, ht, hstamp, h.core.downs t ht⟩
  probeUpCnt := h.core.probeUpCnt
  pacingIntervalM := Nat.ne_of_gt h.core.pacing
  maxTxUdpPayloadSize := Nat.ne_of_gt (Nat.lt_of_lt_of_le (by decide) h.core.size)
  cwnd := Nat.mul_comm 4 _ ▸ h.core.cwnd

/-- A call of the controller keeps what is noted of the packets. -/
theorem Inv.moves (h : Inv c) (cc : Cc) (hm : c.cc.core.Moves c.now cc.core) (ev : Event) (ackTs : Option Nat) :
    Inv { c with cc := cc, ackTs := ackTs } ∧ Steps c ev { c with cc := cc, ackTs := ackTs } := by
  have hlost : cc.rst.lost = c.cc.rst.lost := hm.lost
  have hinv : Inv { c with cc := cc, ackTs := ackTs } := ⟨hm.inv, fun pkt hpkt => hlost ▸ h.pkts pkt hpkt⟩
  exact ⟨hinv, hinv.sound, fun _ hs hs' => (hm.stays hs hs').1, fun _ => hm.leaves⟩

theorem Inv.pktSent (h : Inv c) (pktlen : Nat) (ackEliciting : Bool) :
    Ends (fun _ => False) (fun c' => Inv c' ∧ Steps c (.pktSent pktlen ackEliciting) c') (c.pktSent pktlen ackEliciting) := by
  have hsent : Ends (fun _ => False) (fun cc => c.cc.core.Moves c.now cc.core) (c.tellPktSent ackEliciting) := by
    rw [tellPktSent]
    split
    · exact Cc.onPktSent_moves h.core
    · exact (h.core.keeps rfl).moves
  apply Ends.bind hsent
  intro cc hm
  obtain ⟨hinv, hsteps⟩ := h.moves { cc with stat.bytesInFlight := cc.stat.bytesInFlight + pktlen } hm
    (.pktSent pktlen ackEliciting) c.ackTs
  refine ⟨⟨hinv.core, List.forall_mem_cons.mpr ⟨⟨Nat.le_add_left _ _, Nat.le_refl _⟩, hinv.pkts⟩⟩, ?_⟩
  exact ⟨⟨hsteps.sound.stamped, hsteps.sound.probeUpCnt, hsteps.sound.pacingIntervalM, hsteps.sound.maxTxUdpPayloadSize,
    hsteps.sound.cwnd⟩, hsteps.stays, hsteps.leaves⟩

theorem Inv.pktLost (h : Inv c) {pkt : CcPkt} (hpkt : pkt ∈ c.pkts) :
    Ends (fun _ => False) (fun c' => Inv c' ∧ Steps c (.pktLost pkt) c') (c.pktLost pkt) := by
  obtain ⟨htx, hle⟩ := h.pkts pkt hpkt
  have hlost : Inv { c with cc.rst.lost := c.cc.rst.lost + pkt.pktlen } :=
    ⟨{ h.core with }, fun pkt' hpkt' => ⟨(h.pkts pkt' hpkt').1, (h.pkts pkt' hpkt').2.trans (Nat.le_add_right _ _)⟩⟩
  apply Ends.bind (Cc.onPktLost_safe hlost.core htx (Nat.add_le_add_right hle _))
  intro cc hkeeps
  obtain ⟨hinv, hsteps⟩ := hlost.moves cc hkeeps.moves (.pktLost pkt) c.ackTs
  exact ⟨hinv, hsteps.sound, hsteps.stays, hsteps.leaves⟩

theorem Inv.reset (h : Inv c) {size cwnd smoothedRtt : Nat} (hsized : Sized size cwnd) :
    Ends (fun _ => False) (fun c' => Inv c' ∧ Steps c (.reset size cwnd smoothedRtt) c') (c.reset size cwnd smoothedRtt) := by
  have hinit := Cc.onInit_ends (c := { c.cc with stat := .reset size cwnd smoothedRtt }) h.core.initialCwnd hsized.1
    hsized.2.1 hsized.2.2 h.core.downs
  apply Ends.bind hinit
  rintro cc ⟨hcore, -⟩
  have hinv : Inv { c with cc := { cc with rst := cc.rst.reset }, pkts := [] } := ⟨{ hcore with }, List.forall_mem_nil _⟩
  exact ⟨hinv, hinv.sound, nofun, nofun⟩

theorem Inv.event (h : Inv c) {ev : Event} (hp : c.Permits ev) :
    Ends (fun _ => False) (fun c' => Inv c' ∧ Steps c ev c') (c.event ev) := by
  cases ev with
  | measure stat rst => exact h.moves (c.measure stat rst) (h.core.keeps rfl).moves _ _
  | pktSent pktlen ackEliciting => exact h.pktSent pktlen ackEliciting
  | pktLost pkt => exact h.pktLost hp
  | ackRecv ack =>
      apply Ends.bind (Cc.onAckRecv_moves h.core)
      exact fun cc hm => h.moves cc hm _ _
  | congestionEvent sentTs => exact h.moves _ (Cc.congestionEvent_keeps h.core sentTs).moves _ _
  | spuriousCongestion =>
      apply Ends.bind (Cc.onSpuriousCongestion_safe h.core)
      exact fun cc hkeeps => h.moves cc hkeeps.moves _ _
  | persistentCongestion => exact h.moves _ (Cc.onPersistentCongestion_keeps h.core).moves _ _
  | reset size cwnd smoothedRtt => exact h.reset hp

theorem step_steps (h : Inv c) {i : Nat × Event} (hi : c.Allowed i) :
    ∃ c', c.step i = .ok c' ∧ Inv c' ∧ Steps { c with now := i.1 } i.2 c' := by
  have hnow : Inv { c with now := i.1 } := ⟨h.core.later hi.1, h.pkts⟩
  have hp : Permits { c with now := i.1 } i.2 := by
    obtain ⟨ts, ev⟩ := i
    cases ev <;> exact hi.2.2
  exact (hnow.event hp).exists_ok

theorem init_inv {size cwnd : Nat} (h : Sized size cwnd) (smoothedRtt initialTs : Nat) (pcg : Nat → Nat) :
    ∃ c, init size cwnd smoothedRtt initialTs pcg = .ok c ∧ Inv c := by
  have hinitial : 0 < cwnd := Nat.lt_of_lt_of_le (by have := h.1; omega) h.2.2
  apply Ends.exists_ok
  apply Ends.bind (Cc.onInit_ends hinitial h.1 h.2.1 h.2.2 (List.forall_mem_nil _))
  rintro cc ⟨hcore, -⟩
  exact ⟨hcore, List.forall_mem_nil _⟩

/-- In every run no assertion fails, nothing that is not set is scaled, and nothing is divided by zero. -/
theorem run_sound {size cwnd : Nat} (h : Sized size cwnd) (smoothedRtt initialTs : Nat) (pcg : Nat → Nat) :
    ∃ c, init size cwnd smoothedRtt initialTs pcg = .ok c ∧ ∀ is, Guarded step Allowed c is →
      ∃ c', run step c is = .ok c' ∧ c'.Sound ∧ ∀ i, c'.Allowed i →
        ∃ c'', c'.step i = .ok c'' ∧ Steps { c' with now := i.1 } i.2 c'' := by
  obtain ⟨c, hinit, hinv⟩ := init_inv h smoothedRtt initialTs pcg
  refine ⟨c, hinit, fun is hg => ?_⟩
  have hstep : ∀ c i, Inv c → Allowed c i → ∃ c', c.step i = .ok c' ∧ Inv c' := by
    intro c i hc hi
    obtain ⟨c', hok, hinv', -⟩ := step_steps hc hi
    exact ⟨c', hok, hinv'⟩
  obtain ⟨c', hrun, hinv'⟩ := run_invariant hstep hinv hg
  refine ⟨c', hrun, hinv'.sound, fun i hi => ?_⟩
  obtain ⟨c'', hok, -, hsteps⟩ := step_steps hinv' hi
  exact ⟨c'', hok, hsteps⟩

/-- ProbeRTT is entered with the second event and left with the last one. -/
theorem run_sound_probeRtt : ∃ c c' : Conn, init 1200 12000 333000000 0 (fun _ => 0) = .ok c ∧ c'.Sound ∧
    run step c [(6000000000, .pktSent 1200 true), (6050000000, .ackRecv ⟨1200, 0, 0, ⊤, (50000000 : Nat)⟩),
      (6300000000, .pktSent 1200 true), (6400000000, .ackRecv ⟨1200, 0, 0, ⊤, (50000000 : Nat)⟩)] = .ok c' := by
  have hg : ∀ c ∈ (init 1200 12000 333000000 0 (fun _ => 0)).toOption, Guarded step Allowed c
      [(6000000000, .pktSent 1200 true), (6050000000, .ackRecv ⟨1200, 0, 0, ⊤, (50000000 : Nat)⟩),
        (6300000000, .pktSent 1200 true), (6400000000, .ackRecv ⟨1200, 0, 0, ⊤, (50000000 : Nat)⟩)] := by decide +kernel
  obtain ⟨c, hinit, hruns⟩ := run_sound (by decide : Sized 1200 12000) 333000000 0 (fun _ => 0)
  obtain ⟨c', hrun, hsound, -⟩ := hruns _ (hg c (by rw [hinit]; rfl))
  exact ⟨c, c', hinit, hsound, hrun⟩

end Conn

end Zngtcp2.Bbr
