import Zngtcp2.Cc.Cbrt
import Zngtcp2.Rst.Model

namespace Zngtcp2.Cubic

open Lib.Run
open RateSample (Rst seconds)

/-- What stops a callback: an assertion, a division by zero, or a product of words that wraps around. -/
inductive CubicStop
  | assertion
  | divZero
  | wrap
  deriving DecidableEq, Repr

/-- The product of two words; a shift to the left by `k` bits is the product with `2 ^ k`. -/
def mul (a b : Nat) : Except CubicStop Nat :=
  if a * b < 2 ^ 64 then .ok (a * b) else .error .wrap

def div (a b : Nat) : Except CubicStop Nat :=
  if b = 0 then .error .divZero else .ok (a / b)

/-- The sum of two words. -/
def add64 (a b : Nat) : Nat :=
  (a + b) % 2 ^ 64

/-- `NGTCP2_MILLISECONDS` -/
def milliseconds : Nat :=
  1000000

/-- `ngtcp2_cubic_vars`. No function reads the last field, which tells that a persistent congestion has reset the
variables. -/
structure CubicVars where
  cwndPrior : Nat
  wMax : Nat
  kM : Nat
  epochStart : Nat
  wEst : Nat
  appLimitedStartTs : Nat
  appLimitedDuration : Nat
  pendingBytesAcked : Nat
  pendingEstBytesAcked : Nat
  collapsed : Bool
  deriving DecidableEq, Repr

/-- `cubic_vars_reset` -/
def CubicVars.reset : CubicVars :=
  ⟨0, 0, 0, uint64Max, 0, uint64Max, 0, 0, 0, false⟩

/-- The field `undo` of `ngtcp2_cc_cubic` -/
structure Undo where
  v : CubicVars
  cwnd : Nat
  ssthresh : Nat
  deriving DecidableEq, Repr

def Undo.reset : Undo :=
  ⟨.reset, 0, 0⟩

/-- The HyStart++ variables -/
structure Hs where
  currentRoundMinRtt : Nat
  lastRoundMinRtt : Nat
  rttSampleCount : Nat
  cssBaselineMinRtt : Nat
  cssRound : Nat
  deriving DecidableEq, Repr

def Hs.reset : Hs :=
  ⟨uint64Max, uint64Max, 0, uint64Max, 0⟩

/-- `ngtcp2_cc_cubic` -/
structure CcCubic where
  current : CubicVars
  undo : Undo
  hs : Hs
  nextRoundDelivered : Nat
  deriving DecidableEq, Repr

/-- The part of `ngtcp2_conn_stat` that CUBIC reads and writes. -/
structure Stat where
  cwnd : Nat
  ssthresh : Nat
  bytesInFlight : Nat
  maxTxUdpPayloadSize : Nat
  firstRttSampleTs : Nat
  smoothedRtt : Nat
  congestionRecoveryStartTs : Nat
  pacingIntervalM : Nat
  sendQuantum : Nat
  deriving DecidableEq, Repr

/-- `ngtcp2_cc_compute_initcwnd` -/
def computeInitcwnd (maxUdpPayloadSize : Nat) : Nat :=
  min (10 * maxUdpPayloadSize) (max (2 * maxUdpPayloadSize) 14720)

/-- `conn_reset_conn_stat_cc` -/
def Stat.reset (maxTxUdpPayloadSize initialRtt : Nat) : Stat where
  cwnd := computeInitcwnd maxTxUdpPayloadSize
  ssthresh := uint64Max
  bytesInFlight := 0
  maxTxUdpPayloadSize := maxTxUdpPayloadSize
  firstRttSampleTs := uint64Max
  smoothedRtt := initialRtt
  congestionRecoveryStartTs := uint64Max
  pacingIntervalM := 0
  sendQuantum := 64 * 1024

/-- `in_congestion_recovery` -/
def Stat.inCongestionRecovery (s : Stat) (sentTime : Nat) : Bool :=
  s.congestionRecoveryStartTs ≠ uint64Max ∧ sentTime ≤ s.congestionRecoveryStartTs

/-- `init_pacing_rate` -/
def Stat.initPacingRate (s : Stat) : Except CubicStop Stat :=
  if s.cwnd = 0 then .error .assertion
  else .ok { s with
    pacingIntervalM := max (milliseconds * 1024 * 100 / 125 / s.cwnd) 1
    sendQuantum := 10 * s.maxTxUdpPayloadSize }

/-- `set_pacing_rate` -/
def Stat.setPacingRate (s : Stat) : Except CubicStop Stat :=
  if s.cwnd = 0 then .error .assertion
  else do
    let rtt ← mul (if s.firstRttSampleTs = uint64Max then milliseconds else s.smoothedRtt) 1024
    let rtt ← mul rtt 100
    let interval := max (rtt / 125 / s.cwnd) 1
    let quantum := min (64 * 1024) (milliseconds * 1024 / interval)
    .ok { s with pacingIntervalM := interval, sendQuantum := max quantum (10 * s.maxTxUdpPayloadSize) }

/-- `ngtcp2_cc_ack` -/
structure CcAck where
  bytesDelivered : Nat
  bytesLost : Nat
  pktDelivered : Nat
  largestPktSentTs : Nat
  rtt : Nat
  deriving DecidableEq, Repr

namespace CubicVars

variable (v : CubicVars)

/-- The time after the last congestion event for which the application has not been the limit. -/
def elapsed (ts : Nat) : Nat :=
  sub64 ts v.epochStart

/-- `cubic_cc_compute_w_cubic` -/
def computeWCubic (maxTxUdpPayloadSize ts : Nat) : Except CubicStop Nat := do
  let t ← mul (v.elapsed ts) 1024
  let txM := t / seconds
  let timeDeltaM := min (if txM < v.kM then v.kM - txM else txM - v.kM) (3600 * 1024)
  let square ← mul timeDeltaM timeDeltaM
  let cube ← mul (square / 1024) timeDeltaM
  let delta ← mul (cube / 1024) maxTxUdpPayloadSize
  let delta ← mul delta 4
  let delta := delta / 10 / 1024
  .ok (if txM < v.kM then (if v.wMax < delta then 0 else v.wMax - delta) else v.wMax + delta)

/-- The application is not the limit any more. -/
def resume (ts : Nat) : CubicVars :=
  if v.appLimitedStartTs = uint64Max then v
  else { v with
    appLimitedDuration := add64 v.appLimitedDuration (sub64 ts v.appLimitedStartTs)
    appLimitedStartTs := uint64Max }

/-- What is made of the bytes acknowledged: the part of the estimate `w_est`. -/
def growEst (cwnd maxTxUdpPayloadSize bytesDelivered : Nat) : Except CubicStop CubicVars := do
  let bytesAcked ← mul bytesDelivered maxTxUdpPayloadSize
  let m ← div (bytesAcked + v.pendingEstBytesAcked) cwnd
  let taken ← mul m cwnd
  let v := { v with pendingEstBytesAcked := v.pendingEstBytesAcked + bytesAcked - taken }
  if cwnd ≤ v.pendingEstBytesAcked then .error .assertion
  else if v.wEst < v.cwndPrior then do
    let grown ← mul m 9
    .ok { v with wEst := v.wEst + grown / 17 }
  else .ok { v with wEst := v.wEst + m }

/-- The part that is for the window itself, with what it grows by. -/
def growWindow (cwnd maxTxUdpPayloadSize target : Nat) : Except CubicStop (CubicVars × Nat) := do
  let bytesAcked ← mul (target - cwnd) maxTxUdpPayloadSize
  let m ← div (bytesAcked + v.pendingBytesAcked) cwnd
  let taken ← mul m cwnd
  let v := { v with pendingBytesAcked := v.pendingBytesAcked + bytesAcked - taken }
  if cwnd ≤ v.pendingBytesAcked then .error .assertion else .ok (v, m)

end CubicVars

/-- The window aimed at, where the curve reaches `wCubicNext` after another round trip. -/
def target (cwnd wCubicNext : Nat) : Except CubicStop Nat :=
  if wCubicNext < cwnd then .ok cwnd
  else do
    let twice ← mul 2 wCubicNext
    let thrice ← mul 3 cwnd
    .ok (if thrice < twice then thrice / 2 else wCubicNext)

/-- The controller with what it points to. No function reads the last three fields: the time when the connection
started, the time of the last call, and those of the congestion events and the HyStart++ exits. -/
structure Conn where
  cc : CcCubic
  stat : Stat
  rst : Rst
  start : Nat
  now : Nat
  epochs : List Nat

namespace Conn

variable (c : Conn)

/-- `cubic_cc_reset` -/
def cubicReset : Except CubicStop Conn := do
  let stat ← c.stat.initPacingRate
  .ok { c with cc := ⟨.reset, .reset, .reset, 0⟩, stat := stat }

/-- `ngtcp2_cc_cubic_init`, after `conn_reset_conn_stat_cc` -/
def init (maxTxUdpPayloadSize initialRtt ts : Nat) : Except CubicStop Conn :=
  cubicReset ⟨⟨.reset, .reset, .reset, 0⟩, .reset maxTxUdpPayloadSize initialRtt, .init, ts, ts, []⟩

/-- A round trip begins with the first packet that has been sent since the last one began. -/
def startRound (roundStart : Bool) : Conn :=
  if roundStart then { c with cc.nextRoundDelivered := c.rst.delivered, rst.isCwndLimited := false } else c

def growSlowStart (ack : CcAck) (isAppLimited : Bool) : Except CubicStop Conn :=
  if isAppLimited then .ok c
  else do
    let bytes := if c.cc.hs.cssRound ≠ 0 then ack.bytesDelivered / 4 else ack.bytesDelivered
    let stat ← { c.stat with cwnd := c.stat.cwnd + bytes }.setPacingRate
    .ok { c with stat := stat }

def startHsRound (roundStart : Bool) : Conn :=
  if roundStart then
    { c with
      cc.hs.lastRoundMinRtt := c.cc.hs.currentRoundMinRtt
      cc.hs.currentRoundMinRtt := uint64Max
      cc.hs.rttSampleCount := 0
      cc.hs.cssRound := if c.cc.hs.cssRound ≠ 0 then c.cc.hs.cssRound + 1 else 0 }
  else c

def sampleRtt (rtt : Nat) : Conn :=
  { c with
    cc.hs.currentRoundMinRtt := min c.cc.hs.currentRoundMinRtt rtt
    cc.hs.rttSampleCount := c.cc.hs.rttSampleCount + 1 }

def exitSlowStart (ts : Nat) : Conn :=
  { c with
    cc.current.epochStart := ts
    cc.current.wMax := c.stat.cwnd
    stat.ssthresh := c.stat.cwnd
    cc.current.cwndPrior := c.stat.cwnd
    cc.current.wEst := c.stat.cwnd
    cc.current.collapsed := false
    epochs := ts :: c.epochs }

/-- The round trips have become longer, and conservative slow start begins. -/
def startCss : Conn :=
  if 8 ≤ c.cc.hs.rttSampleCount ∧ c.cc.hs.currentRoundMinRtt ≠ uint64Max ∧ c.cc.hs.lastRoundMinRtt ≠ uint64Max then
    let rttThresh := max (4 * milliseconds) (min (c.cc.hs.lastRoundMinRtt / 8) (16 * milliseconds))
    if c.cc.hs.lastRoundMinRtt + rttThresh ≤ c.cc.hs.currentRoundMinRtt then
      { c with cc.hs.cssBaselineMinRtt := c.cc.hs.currentRoundMinRtt, cc.hs.cssRound := 1 }
    else c
  else c

/-- What HyStart++ makes of the samples. -/
def hystart (ts : Nat) : Conn :=
  if c.cc.hs.cssRound ≠ 0 then
    if c.cc.hs.currentRoundMinRtt < c.cc.hs.cssBaselineMinRtt then
      { c with cc.hs.cssBaselineMinRtt := uint64Max, cc.hs.cssRound := 0 }
    else if 5 ≤ c.cc.hs.cssRound then c.exitSlowStart ts
    else c
  else c.startCss

/-- The slow-start branch of `ngtcp2_cc_cubic_cc_on_ack_recv` -/
def slowStart (ack : CcAck) (ts : Nat) (isAppLimited roundStart : Bool) : Except CubicStop Conn := do
  let c ← c.growSlowStart ack isAppLimited
  .ok (((c.startHsRound roundStart).sampleRtt ack.rtt).hystart ts)

/-- The congestion-avoidance branch -/
def avoidCongestion (ack : CcAck) (ts : Nat) (isAppLimited : Bool) : Except CubicStop Conn :=
  if isAppLimited then
    .ok (if c.cc.current.appLimitedStartTs = uint64Max then { c with cc.current.appLimitedStartTs := ts } else c)
  else do
    let v := c.cc.current.resume ts
    let wCubic ← v.computeWCubic c.stat.maxTxUdpPayloadSize (sub64 ts v.appLimitedDuration)
    let wCubicNext ← v.computeWCubic c.stat.maxTxUdpPayloadSize
      (add64 (sub64 ts v.appLimitedDuration) c.stat.smoothedRtt)
    let target ← target c.stat.cwnd wCubicNext
    let v ← v.growEst c.stat.cwnd c.stat.maxTxUdpPayloadSize ack.bytesDelivered
    if wCubic < v.wEst then do
      let stat ← { c.stat with cwnd := v.wEst }.setPacingRate
      .ok { c with cc.current := v, stat := stat }
    else do
      let (v, m) ← v.growWindow c.stat.cwnd c.stat.maxTxUdpPayloadSize target
      let stat ← { c.stat with cwnd := c.stat.cwnd + m }.setPacingRate
      .ok { c with cc.current := v, stat := stat }

/-- `ngtcp2_cc_cubic_cc_on_ack_recv` -/
def onAckRecv (ack : CcAck) (ts : Nat) : Except CubicStop Conn :=
  let isAppLimited := c.rst.rs.isAppLimited && !c.rst.isCwndLimited
  if ack.bytesDelivered = 0 ∨ c.stat.inCongestionRecovery ack.largestPktSentTs then .ok c
  else
    let roundStart : Bool := c.cc.nextRoundDelivered ≤ ack.pktDelivered
    if c.stat.cwnd < c.stat.ssthresh then (c.startRound roundStart).slowStart ack ts isAppLimited roundStart
    else (c.startRound roundStart).avoidCongestion ack ts isAppLimited

/-- The state that a spurious event is undone to. -/
def saveUndo : Conn :=
  if c.cc.undo.cwnd < c.stat.cwnd then { c with cc.undo := ⟨c.cc.current, c.stat.cwnd, c.stat.ssthresh⟩ } else c

/-- The slow-start threshold after a congestion event. -/
def reducedSsthresh (ack : CcAck) : Except CubicStop Nat := do
  let ssthresh ← mul c.stat.cwnd 7
  let ssthresh := ssthresh / 10
  let delivered ← mul c.rst.rs.delivered 2
  let ssthresh :=
    if delivered < c.stat.cwnd then min ssthresh (max c.rst.rs.delivered (c.stat.bytesInFlight + ack.bytesLost))
    else ssthresh
  .ok (max ssthresh (2 * c.stat.maxTxUdpPayloadSize))

def reducedWMax : Except CubicStop Nat :=
  if c.stat.cwnd < c.cc.current.wMax then do
    let wMax ← mul c.stat.cwnd 17
    .ok (max (wMax / 20) (2 * c.stat.maxTxUdpPayloadSize))
  else .ok (max c.stat.cwnd (2 * c.stat.maxTxUdpPayloadSize))

/-- The time, in units of a second shifted by 10 bits, in which the window would grow by so much. -/
def computeKM (cwndDelta : Nat) : Except CubicStop Nat := do
  let n ← mul cwndDelta (2 ^ 30)
  let n ← mul n 10
  let n ← div (n / 4) c.stat.maxTxUdpPayloadSize
  match Cc.cbrt n with
  | some kM => .ok kM
  | none => .error .wrap

/-- `ngtcp2_cc_cubic_cc_congestion_event` -/
def congestionEvent (sentTs : Nat) (ack : CcAck) (ts : Nat) : Except CubicStop Conn :=
  if c.stat.inCongestionRecovery sentTs then .ok c
  else do
    let wMax ← c.reducedWMax
    let ssthresh ← c.reducedSsthresh ack
    if wMax < ssthresh then .error .assertion
    else do
      let kM ← c.computeKM (wMax - ssthresh)
      let stat ← { c.stat with
        congestionRecoveryStartTs := ts, ssthresh := ssthresh, cwnd := ssthresh }.setPacingRate
      .ok { c.saveUndo with
        cc.current := ⟨c.stat.cwnd, wMax, kM, ts, ssthresh, uint64Max, 0, 0, 0, false⟩
        stat := stat
        epochs := ts :: c.epochs }

/-- `ngtcp2_cc_cubic_cc_on_spurious_congestion` -/
def onSpuriousCongestion : Except CubicStop Conn := do
  let c := { c with stat.congestionRecoveryStartTs := uint64Max }
  if c.stat.cwnd < c.cc.undo.cwnd then do
    let stat ← { c.stat with cwnd := c.cc.undo.cwnd, ssthresh := c.cc.undo.ssthresh }.setPacingRate
    .ok { c with cc.current := c.cc.undo.v, stat := stat, cc.undo := .reset }
  else .ok { c with cc.undo := .reset }

/-- `ngtcp2_cc_cubic_cc_on_persistent_congestion` -/
def onPersistentCongestion : Except CubicStop Conn := do
  let c ← c.cubicReset
  let stat ← { c.stat with
    cwnd := 2 * c.stat.maxTxUdpPayloadSize
    congestionRecoveryStartTs := uint64Max }.setPacingRate
  .ok { c with stat := stat, cc.current.collapsed := true }

/-- `conn_reset_congestion_state`, with `ngtcp2_cc_cubic_cc_reset` -/
def reset (initialRtt : Nat) : Except CubicStop Conn :=
  cubicReset { c with stat := .reset c.stat.maxTxUdpPayloadSize initialRtt }

/-- The callbacks, and what the rest of the connection measures between them. -/
inductive Event
  | measure (bytesInFlight firstRttSampleTs smoothedRtt : Nat) (rst : Rst)
  | ackRecv (ack : CcAck)
  | congestionEvent (sentTs : Nat) (ack : CcAck)
  | spuriousCongestion
  | persistentCongestion
  | reset (initialRtt : Nat)
  deriving DecidableEq, Repr

def event : Event → Except CubicStop Conn
  | .measure bytesInFlight firstRttSampleTs smoothedRtt rst => .ok { c with
      stat.bytesInFlight := bytesInFlight
      stat.firstRttSampleTs := firstRttSampleTs
      stat.smoothedRtt := smoothedRtt
      rst := rst }
  | .ackRecv ack => c.onAckRecv ack c.now
  | .congestionEvent sentTs ack => c.congestionEvent sentTs ack c.now
  | .spuriousCongestion => c.onSpuriousCongestion
  | .persistentCongestion => c.onPersistentCongestion
  | .reset initialRtt => c.reset initialRtt

def step (i : Nat × Event) : Except CubicStop Conn :=
  event { c with now := i.1 } i.2

/-- The acknowledgement takes the congestion-avoidance branch. -/
def Avoids (ack : CcAck) : Prop :=
  ack.bytesDelivered ≠ 0 ∧ c.stat.inCongestionRecovery ack.largestPktSentTs = false ∧ c.stat.ssthresh ≤ c.stat.cwnd

/-- Where `on_ack_recv` takes the congestion-avoidance branch, the epoch has begun with a congestion event or a HyStart++
exit, and the time that has passed since is what `cubic_cc_compute_w_cubic` gets. -/
def Timed : Nat × Event → Prop
  | (ts, .ackRecv ack) => c.Avoids ack →
      c.cc.current.epochStart ≠ uint64Max ∧ c.cc.current.epochStart ∈ c.epochs ∧
        (c.cc.current.resume ts).appLimitedDuration ≤ ts ∧
        c.cc.current.epochStart + (c.cc.current.resume ts).elapsed (sub64 ts (c.cc.current.resume ts).appLimitedDuration) +
          (c.cc.current.resume ts).appLimitedDuration = ts
  | _ => True

/-- No acknowledgement takes the congestion-avoidance branch after a persistent congestion, before the next congestion
event or HyStart++ exit. -/
def Renewed : Nat × Event → Prop
  | (_, .ackRecv ack) => c.Avoids ack → c.cc.current.collapsed = false
  | _ => True

/-- Time does not go back, the run is shorter than 2^45 nanoseconds, the window is smaller than 2^30 bytes, and so much
is not acknowledged at once that its product with the size of a packet does not fit a word. -/
def Allowed (i : Nat × Event) : Prop :=
  c.now ≤ i.1 ∧ i.1 < c.start + 2 ^ 45 ∧ i.1 < uint64Max ∧ c.stat.cwnd < 2 ^ 30 ∧
    match i.2 with
    | .measure _ _ smoothedRtt rst => smoothedRtt < 2 ^ 45 ∧ rst.rs.delivered < 2 ^ 47
    | .ackRecv ack => ack.bytesDelivered < 2 ^ 47
    | .reset initialRtt => initialRtt < 2 ^ 45
    | _ => True

end Conn

end Zngtcp2.Cubic
