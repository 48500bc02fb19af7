import Zngtcp2.Buf
import Zngtcp2.Rtb.Persistent

namespace Zngtcp2.RateSample

open Lib.Word RtbTx
open PktnsRx (AckFrame)
open Strm (Stop)

/-- `ngtcp2_rs` -/
structure Rs where
  interval : Nat
  delivered : Nat
  priorDelivered : Nat
  priorTs : Nat
  txInFlight : Nat
  lost : Nat
  sendElapsed : Nat
  ackElapsed : Nat
  lastAckedPktId : Int
  isAppLimited : Bool
  deriving DecidableEq, Repr

/-- `ngtcp2_rs_init` -/
def Rs.init : Rs :=
  ⟨uint64Max, 0, 0, uint64Max, 0, 0, 0, 0, -1, false⟩

/-- `ngtcp2_rst`; the totals of bytes are taken to be without bound. -/
structure Rst where
  rs : Rs
  delivered : Nat
  deliveredTs : Nat
  firstSentTs : Nat
  appLimited : Nat
  lost : Nat
  pktId : Int
  isCwndLimited : Bool
  deriving DecidableEq, Repr

/-- The field `rst` of `ngtcp2_rtb_entry`: what is noted of the connection when a packet is sent. -/
structure Snapshot where
  firstSentTs : Nat
  deliveredTs : Nat
  delivered : Nat
  isAppLimited : Bool
  txInFlight : Nat
  lost : Nat
  pktId : Int
  deriving DecidableEq, Repr

/-- The part of `ngtcp2_conn_stat` that is read and written here. -/
structure Stat where
  minRtt : Nat
  deliveryRateSec : Nat
  deriving DecidableEq, Repr

/-- What stops a call: the buffer, or an unsigned subtraction that wraps around. -/
inductive RateStop
  | rtb (stop : Stop)
  | wrap
  deriving DecidableEq

/-- `NGTCP2_SECONDS` -/
def seconds : Nat :=
  1000000000

def minus (a b : Nat) : Except RateStop Nat :=
  match diff a b with
  | some d => .ok d
  | none => .error .wrap

def lift {α : Type} : Except Stop α → Except RateStop α
  | .ok a => .ok a
  | .error stop => .error (.rtb stop)

namespace Rst

/-- `ngtcp2_rst_reset` -/
def reset (rst : Rst) : Rst :=
  { rst with
    rs := .init
    delivered := 0
    deliveredTs := 0
    firstSentTs := 0
    appLimited := 0
    isCwndLimited := false
    lost := 0 }

/-- `ngtcp2_rst_init` -/
def init : Rst :=
  reset ⟨.init, 0, 0, 0, 0, 0, -1, false⟩

variable (rst : Rst)

/-- `ngtcp2_rst_reset_rate_sample` -/
def resetRateSample (stat : Stat) : Rst × Stat :=
  ({ rst with rs := { rst.rs with interval := uint64Max, priorTs := uint64Max } }, { stat with deliveryRateSec := 0 })

/-- `ngtcp2_rst_on_pkt_sent` -/
def onPktSent (e : Entry) (bytesInFlight : Nat) : Rst × Snapshot :=
  let rst := if bytesInFlight = e.pktlen then { rst with firstSentTs := e.ts, deliveredTs := e.ts } else rst
  let rst := { rst with pktId := rst.pktId + 1 }
  (rst, ⟨rst.firstSentTs, rst.deliveredTs, rst.delivered, rst.appLimited ≠ 0, bytesInFlight, rst.lost, rst.pktId⟩)

/-- `ngtcp2_rst_on_ack_recv` -/
def onAckRecv (stat : Stat) : Except RateStop (Rst × Stat) :=
  let rst := if rst.appLimited ≠ 0 ∧ rst.delivered > rst.appLimited then { rst with appLimited := 0 } else rst
  if rst.rs.priorTs = uint64Max then .ok (rst, stat)
  else do
    let interval := max rst.rs.sendElapsed rst.rs.ackElapsed
    let delivered ← minus rst.delivered rst.rs.priorDelivered
    let rst := { rst with rs := { rst.rs with interval := interval, delivered := delivered } }
    if interval < stat.minRtt then .ok (rst, stat)
    else if interval = 0 then .ok (rst, stat)
    else .ok (rst, { stat with deliveryRateSec := delivered * seconds % 2 ^ 64 / interval })

/-- `ngtcp2_rst_update_rate_sample` -/
def updateRateSample (e : Entry) (snap : Snapshot) (ts : Nat) : Except RateStop Rst :=
  let rst := { rst with delivered := rst.delivered + e.pktlen, deliveredTs := ts }
  if rst.rs.priorTs = uint64Max ∨ snap.pktId > rst.rs.lastAckedPktId then do
    let sendElapsed ← minus e.ts snap.firstSentTs
    let ackElapsed ← minus rst.deliveredTs snap.deliveredTs
    .ok { rst with
      rs := { rst.rs with
        priorDelivered := snap.delivered
        priorTs := snap.deliveredTs
        isAppLimited := snap.isAppLimited
        sendElapsed := sendElapsed
        ackElapsed := ackElapsed
        lastAckedPktId := snap.pktId }
      firstSentTs := e.ts }
  else .ok rst

end Rst

/-- The part of `ngtcp2_rtb_recv_ack` that takes the acknowledged entries out; the newest one comes last. -/
def takeOut (r : Rtb) (fr : AckFrame) : Except Stop (Rtb × List Entry) :=
  let largestAck : Int := fr.largestAck
  let r := { r with largestAckedTxPktNum := max r.largestAckedTxPktNum largestAck }
  if r.ents.dropWhile (largestAck < ·.pktNum) = [] then .ok (r, [])
  else do
    let minAck := largestAck - fr.firstAckRange
    let (r, acked) ← r.ackRange (·.pktNum ≤ largestAck) largestAck minAck
    let (r, acked') ← Rtb.ackRanges r minAck fr.ranges
    .ok (r, (acked ++ acked').reverse)

/-- The loop of `ngtcp2_rtb_recv_ack` over the entries that were taken out, with the `pkt_delivered` of the ACK and the
number of packets that count. -/
def processAcked (ccPktNum : Int) (snaps : Int → Snapshot) (ts : Nat) :
    Nat → Nat → Rst → List Entry → Except RateStop (Rst × Nat)
  | _, numAcked, rst, [] => .ok (rst, numAcked)
  | pktDelivered, numAcked, rst, e :: es =>
      if ccPktNum ≤ e.pktNum then
        if (snaps e.pktNum).delivered < pktDelivered then .error (.rtb (.fault .assertion))
        else do
          let rst ← rst.updateRateSample e (snaps e.pktNum) ts
          processAcked ccPktNum snaps ts (snaps e.pktNum).delivered (numAcked + 1) rst es
      else processAcked ccPktNum snaps ts pktDelivered numAcked rst es

/-- The bytes of the entries that are lost afterwards and were not before; probes of the path MTU do not count, and a
skipped packet number has no bytes. -/
def lostBytes (lost : Nat) (rst : Rst) : Rst :=
  { rst with lost := rst.lost + lost }

/-- What `ngtcp2_rtb_recv_ack` leaves behind. -/
structure Received where
  rtb : Rtb
  rst : Rst
  stat : Stat
  numAcked : Nat
  lost : Nat

/-- `ngtcp2_rtb_recv_ack` with the rate sample. -/
def recvAck (r : Rtb) (rst : Rst) (stat : Stat) (snaps : Int → Snapshot) (fr : AckFrame) (l : Loss) :
    Except RateStop Received := do
  let (rst, stat) := rst.resetRateSample stat
  let (r, acked) ← lift (takeOut r fr)
  let (rst, numAcked) ← processAcked r.ccPktNum snaps l.ts 0 0 rst acked
  if numAcked = 0 then .ok ⟨r, rst, stat, 0, 0⟩
  else do
    let (rst, stat) ← rst.onAckRecv stat
    let (r, lost) ← lift (r.detectLostPkt l)
    .ok ⟨r, lostBytes lost rst, stat, numAcked, lost⟩

end Zngtcp2.RateSample

namespace Zngtcp2.RtbTx

open Lib.Run PktnsRx

/-- The bytes in flight of the connection have changed as those of the packet number space. -/
def Counters.InStep (c c' : Counters) : Prop :=
  c'.bytesInFlight + c.ccBytesInFlight = c.bytesInFlight + c'.ccBytesInFlight

namespace Counters

variable {c c' c'' : Counters}

theorem InStep.refl (c : Counters) : InStep c c :=
  rfl

theorem InStep.trans (h : InStep c c') (h' : InStep c' c'') : InStep c c'' := by
  rw [InStep] at *
  omega

theorem inStep_of_eq (hbytes : c'.bytesInFlight = c.bytesInFlight) (hcc : c'.ccBytesInFlight = c.ccBytesInFlight) : InStep c c' := by
  rw [InStep, hbytes, hcc]

theorem onAdd_inStep {ccPktNum : Int} {e : Entry} (h : c.onAdd ccPktNum e = .ok c') : InStep c c' := by
  rw [onAdd] at h
  split at h
  · cases h
    simp only [InStep]
    omega
  · cases h

theorem takeBytes_inStep {ccPktNum : Int} {e : Entry} {n : Nat} (h : c.takeBytes ccPktNum e = .ok (c', n)) : InStep c c' := by
  rw [takeBytes] at h
  split at h
  · split at h
    · cases h
    · rename_i hle
      rw [not_or, Nat.not_lt, Nat.not_lt] at hle
      cases h
      simp only [InStep]
      omega
  · cases h
    exact .refl _

theorem onRemove_inStep {ccPktNum : Int} {e : Entry} {n : Nat} (h : c.onRemove ccPktNum e = .ok (c', n)) : InStep c c' := by
  rw [onRemove] at h
  split at h
  · obtain ⟨numLostPkts, -, h⟩ := bind_ok h
    obtain ⟨numLostIgnorePkts, -, h⟩ := bind_ok h
    cases h
    exact inStep_of_eq rfl rfl
  · obtain ⟨numAckEliciting, -, h⟩ := bind_ok h
    obtain ⟨numRetransmittable, -, h⟩ := bind_ok h
    obtain ⟨numPtoEliciting, -, h⟩ := bind_ok h
    refine InStep.trans ?_ (takeBytes_inStep h)
    exact inStep_of_eq rfl rfl

theorem onPktLost_inStep {e e' : Entry} {ts : Nat} (h : c.onPktLost e ts = .ok (c', e')) : InStep c c' := by
  rw [onPktLost] at h
  split at h
  · cases h
  · cases h
    exact inStep_of_eq rfl rfl

end Counters

namespace Rtb

open Counters (InStep)

variable {ccPktNum : Int} {c c' : Counters} {es es' : List Entry} {r r' : Rtb}

theorem add_inStep {e : Entry} (h : r.add e = .ok r') : InStep r.counters r'.counters := by
  rw [add] at h
  split at h
  · cases h
  · obtain ⟨c, hadd, h⟩ := bind_ok h
    cases h
    exact Counters.onAdd_inStep hadd

theorem markLost_inStep {l : Loss} {run : LostRun} {n n' : Nat} (h : markLost ccPktNum l c run n es = .ok (c', es', n')) :
    InStep c c' := by
  induction es generalizing c run n es' with
  | nil =>
      cases h
      exact .refl _
  | cons e es ih =>
      rw [markLost] at h
      simp only at h
      split at h
      · split at h
        · cases h
          exact .refl _
        · obtain ⟨⟨c₁, es₁, n₁⟩, hrun, h⟩ := bind_ok h
          cases h
          exact ih hrun
      · obtain ⟨⟨c₁, n₁⟩, hremove, h⟩ := bind_ok h
        obtain ⟨⟨c₂, e₂⟩, hmark, h⟩ := bind_ok h
        obtain ⟨⟨c₃, es₃, n₃⟩, hrun, h⟩ := bind_ok h
        cases h
        exact (Counters.onRemove_inStep hremove).trans ((Counters.onPktLost_inStep hmark).trans (ih hrun))

theorem dropStale_inStep {keep : Nat} {fresh : Entry → Bool} (h : dropStale keep fresh c es = .ok (c', es')) : InStep c c' := by
  induction es generalizing c with
  | nil =>
      rw [dropStale] at h
      split at h
      · cases h
        exact .refl _
      · cases h
  | cons e es ih =>
      rw [dropStale] at h
      split_ifs at h
      · cases h
        exact .refl _
      · cases h
        exact .refl _
      · obtain ⟨numLostIgnorePkts, -, h⟩ := bind_ok h
        refine InStep.trans ?_ (ih h)
        exact Counters.inStep_of_eq rfl rfl

theorem removeStale_inStep {keep : Nat} {fresh : Entry → Bool} (h : r.removeStale keep fresh = .ok r') :
    InStep r.counters r'.counters := by
  obtain ⟨⟨c, es⟩, hdrop, h⟩ := bind_ok h
  cases h
  exact dropStale_inStep hdrop

theorem detectMark_inStep {l : Loss} {before : List Entry} {n : Nat} (h : r.detectMark l before es = .ok (r', n)) :
    InStep r.counters r'.counters := by
  cases es with
  | nil =>
      cases h
      exact .refl _
  | cons e es =>
      obtain ⟨⟨c, es', n'⟩, hrun, h⟩ := bind_ok h
      cases h
      exact markLost_inStep hrun

theorem detectLostPkt_inStep {l : Loss} {n : Nat} (h : r.detectLostPkt l = .ok (r', n)) : InStep r.counters r'.counters := by
  obtain ⟨⟨r₁, n₁⟩, hmark, h⟩ := bind_ok h
  obtain ⟨r₂, hremove, h⟩ := bind_ok h
  cases h
  exact (detectMark_inStep hmark).trans (removeStale_inStep hremove)

theorem removeAcked_inStep {asserted : Entry → Bool} {minAck : Int} {acked : List Entry}
    (h : removeAcked ccPktNum asserted minAck c es = .ok (c', acked, es')) : InStep c c' := by
  induction es generalizing c acked es' with
  | nil =>
      cases h
      exact .refl _
  | cons e es ih =>
      rw [removeAcked] at h
      split_ifs at h
      · cases h
        exact .refl _
      · obtain ⟨⟨c₁, n₁⟩, hremove, h⟩ := bind_ok h
        obtain ⟨⟨c₂, acked₂, es₂⟩, hrun, h⟩ := bind_ok h
        cases h
        exact (Counters.onRemove_inStep hremove).trans (ih hrun)

theorem ackRange_inStep {asserted : Entry → Bool} {largestAck minAck : Int} {acked : List Entry}
    (h : r.ackRange asserted largestAck minAck = .ok (r', acked)) : InStep r.counters r'.counters := by
  obtain ⟨⟨c, acked', older⟩, hrun, h⟩ := bind_ok h
  cases h
  exact removeAcked_inStep hrun

theorem ackRanges_inStep {minAck : Int} {ranges : List AckRange} {acked : List Entry}
    (h : ackRanges r minAck ranges = .ok (r', acked)) : InStep r.counters r'.counters := by
  induction ranges generalizing r minAck acked with
  | nil =>
      cases h
      exact .refl _
  | cons range ranges ih =>
      rw [ackRanges] at h
      simp only at h
      split at h
      · cases h
        exact .refl _
      · obtain ⟨⟨r₁, acked₁⟩, hrange, h⟩ := bind_ok h
        obtain ⟨⟨r₂, acked₂⟩, hranges, h⟩ := bind_ok h
        cases h
        exact (ackRange_inStep hrange).trans (ih hranges)

theorem dropEarlyData_inStep (h : dropEarlyData ccPktNum c es = .ok (c', es')) : InStep c c' := by
  induction es generalizing c es' with
  | nil =>
      cases h
      exact .refl _
  | cons e es ih =>
      rw [dropEarlyData] at h
      split at h
      · obtain ⟨⟨c₁, es₁⟩, hrun, h⟩ := bind_ok h
        cases h
        exact ih hrun
      · obtain ⟨⟨c₁, n⟩, hremove, h⟩ := bind_ok h
        exact (Counters.onRemove_inStep hremove).trans (ih h)

theorem reclaimLoop_inStep {reclaimed : Entry → Nat} {numPkts n : Nat}
    (h : reclaimLoop reclaimed numPkts c es = .ok (n, c', es')) : InStep c c' := by
  induction es generalizing numPkts n c es' with
  | nil =>
      cases h
      exact .refl _
  | cons e es ih =>
      rw [reclaimLoop] at h
      split at h
      · cases h
        exact .refl _
      · split at h
        · obtain ⟨⟨n₁, c₁, es₁⟩, hrun, h⟩ := bind_ok h
          cases h
          exact ih hrun
        · obtain ⟨numRetransmittable, -, h⟩ := bind_ok h
          obtain ⟨numPtoEliciting, -, h⟩ := bind_ok h
          obtain ⟨⟨n₁, c₁, es₁⟩, hrun, h⟩ := bind_ok h
          cases h
          refine InStep.trans ?_ (ih hrun)
          exact Counters.inStep_of_eq rfl rfl

theorem retryLoop_inStep (h : retryLoop ccPktNum c es = .ok c') : InStep c c' := by
  induction es generalizing c with
  | nil =>
      cases h
      exact .refl _
  | cons e es ih =>
      obtain ⟨⟨c₁, n⟩, hremove, h⟩ := bind_ok h
      simp only at h
      split_ifs at h
      exact (Counters.onRemove_inStep hremove).trans (ih h)

theorem reclaimOnRetry_inStep (h : r.reclaimOnRetry = .ok r') : InStep r.counters r'.counters := by
  obtain ⟨c, hrun, h⟩ := bind_ok h
  cases h
  exact retryLoop_inStep hrun

theorem recvAck_inStep {fr : AckFrame} {l : Loss} {n : Nat} (h : r.recvAck fr l = .ok (r', n)) : InStep r.counters r'.counters := by
  rw [recvAck] at h
  simp only at h
  split at h
  · cases h
    exact .refl _
  · obtain ⟨⟨r₁, acked₁⟩, hrange, h⟩ := bind_ok h
    obtain ⟨⟨r₂, acked₂⟩, hranges, h⟩ := bind_ok h
    have hfirst := ackRange_inStep hrange
    simp only at h
    split at h
    · cases h
      exact hfirst.trans (ackRanges_inStep hranges)
    · obtain ⟨⟨r₃, lost⟩, hdetect, h⟩ := bind_ok h
      cases h
      exact hfirst.trans ((ackRanges_inStep hranges).trans (detectLostPkt_inStep hdetect))

end Rtb

theorem State.step_inStep {s s' : State} {op : Op} (hop : State.Removes op) (hstep : s.step op = .ok s') :
    Counters.InStep s.rtb.counters s'.rtb.counters := by
  cases op with
  | add pktNum type ts pktlen sent => cases hop
  | resetCcState => cases hop
  | others bytes => cases hop
  | recvAck fr loss =>
      obtain ⟨⟨rtb, n⟩, hrun, hstep⟩ := bind_ok hstep
      cases hstep
      exact Rtb.recvAck_inStep hrun
  | detectLostPkt loss =>
      obtain ⟨⟨rtb, n⟩, hrun, hstep⟩ := bind_ok hstep
      cases hstep
      exact Rtb.detectLostPkt_inStep hrun
  | reclaimOnPto reclaimed numPkts =>
      obtain ⟨⟨rtb, n⟩, hrun, hstep⟩ := bind_ok hstep
      cases hstep
      obtain ⟨⟨left, c, es⟩, hloop, hrun⟩ := bind_ok hrun
      cases hrun
      exact Rtb.reclaimLoop_inStep hloop
  | removeExcessiveLostPkt n =>
      obtain ⟨rtb, hrun, hstep⟩ := bind_ok hstep
      cases hstep
      exact Rtb.removeStale_inStep hrun
  | removeExpiredLostPkt timeout ts =>
      obtain ⟨rtb, hrun, hstep⟩ := bind_ok hstep
      cases hstep
      exact Rtb.removeStale_inStep hrun
  | removeEarlyData =>
      obtain ⟨rtb, hrun, hstep⟩ := bind_ok hstep
      cases hstep
      obtain ⟨⟨c, es⟩, hloop, hrun⟩ := bind_ok hrun
      cases hrun
      exact Rtb.dropEarlyData_inStep hloop

end Zngtcp2.RtbTx
