import Zngtcp2.Rst.Model
import Zngtcp2.WindowFilter
import Mathlib.Order.Lattice.Nat
import Mathlib.Order.WithBot
import Mathlib.Algebra.Order.Monoid.Unbundled.WithTop

namespace Zngtcp2.Bbr

open RateSample (Rst seconds)

/-- `ngtcp2_bbr_state` -/
inductive BbrState
  | startup
  | drain
  | probeBwDown
  | probeBwCruise
  | probeBwRefill
  | probeBwUp
  | probeRtt
  deriving DecidableEq, Repr

/-- `ngtcp2_bbr_ack_phase` -/
inductive AckPhase
  | acksProbeStarting
  | acksProbeStopping
  | acksProbeFeedback
  | acksRefilling
  deriving DecidableEq, Repr

/-- `ngtcp2_cc_bbr`; what may be `UINT64_MAX` has a top value instead. -/
structure CcBbr where
  initialCwnd : Nat
  maxBwFilter : WindowFilter
  extraAckedFilter : WindowFilter
  minRtt : WithTop Nat
  minRttStamp : Nat
  probeRttDoneStamp : WithTop Nat
  probeRttRoundDone : Bool
  idleRestart : Bool
  priorCwnd : Nat
  extraAckedIntervalStart : Nat
  extraAckedDelivered : Nat
  lossInRound : Bool
  bwLatest : Nat
  inflightLatest : Nat
  bwShortterm : WithTop Nat
  inflightShortterm : WithTop Nat
  nextRoundDelivered : Nat
  roundCount : Nat
  roundStart : Bool
  fullBw : Nat
  fullBwCount : Nat
  fullBwReached : Bool
  fullBwNow : Bool
  pacingGainH : Nat
  state : BbrState
  cwndGainH : Nat
  undoState : BbrState
  undoBwShortterm : WithTop Nat
  undoInflightShortterm : WithTop Nat
  undoInflightLongterm : WithTop Nat
  lossRoundDelivered : WithTop Nat
  roundsSinceBwProbe : Nat
  maxBw : Nat
  bw : Nat
  cycleCount : Nat
  extraAcked : Nat
  bytesLostInRound : Nat
  lossEventsInRound : Nat
  offloadBudget : Nat
  probeUpCnt : WithTop Nat
  cycleStamp : WithTop Nat
  ackPhase : AckPhase
  bwProbeWait : Nat
  bwProbeUpRounds : Nat
  bwProbeUpAcks : Nat
  inflightLongterm : WithTop Nat
  probeRttMinDelay : WithTop Nat
  probeRttMinStamp : Nat
  roundCountAtRecovery : WithTop Nat
  maxInflight : Nat
  bdp : Nat
  drainStartRound : Nat
  lossRoundStart : Bool
  bwProbeSamples : Bool
  probeRttExpired : Bool
  inLossRecovery : Bool

/-- The fields after `bbr_on_init`; all but `initial_cwnd` are set there. -/
def CcBbr.start (initialCwnd : Nat) (minRtt : WithTop Nat) (initialTs : Nat) : CcBbr where
  initialCwnd := initialCwnd
  maxBwFilter := .init 2
  extraAckedFilter := .init 10
  minRtt := minRtt
  minRttStamp := initialTs
  probeRttDoneStamp := ⊤
  probeRttRoundDone := false
  idleRestart := false
  priorCwnd := 0
  extraAckedIntervalStart := initialTs
  extraAckedDelivered := 0
  lossInRound := false
  bwLatest := 0
  inflightLatest := 0
  bwShortterm := ⊤
  inflightShortterm := ⊤
  nextRoundDelivered := 0
  roundCount := 0
  roundStart := false
  fullBw := 0
  fullBwCount := 0
  fullBwReached := false
  fullBwNow := false
  pacingGainH := 277
  state := .startup
  cwndGainH := 200
  undoState := .startup
  undoBwShortterm := 0
  undoInflightShortterm := 0
  undoInflightLongterm := 0
  lossRoundDelivered := ⊤
  roundsSinceBwProbe := 0
  maxBw := 0
  bw := 0
  cycleCount := 0
  extraAcked := 0
  bytesLostInRound := 0
  lossEventsInRound := 0
  offloadBudget := 0
  probeUpCnt := ⊤
  cycleStamp := ⊤
  ackPhase := .acksProbeStarting
  bwProbeWait := 0
  bwProbeUpRounds := 0
  bwProbeUpAcks := 0
  inflightLongterm := ⊤
  probeRttMinDelay := ⊤
  probeRttMinStamp := initialTs
  roundCountAtRecovery := ⊤
  maxInflight := 0
  bdp := 0
  drainStartRound := 0
  lossRoundStart := false
  bwProbeSamples := false
  probeRttExpired := false
  inLossRecovery := false

/-- The part of `ngtcp2_conn_stat` that BBR reads and writes. -/
structure Stat where
  cwnd : Nat
  bytesInFlight : Nat
  maxTxUdpPayloadSize : Nat
  deliveryRateSec : Nat
  firstRttSampleTs : WithTop Nat
  smoothedRtt : Nat
  congestionRecoveryStartTs : WithTop Nat
  pacingIntervalM : Nat
  sendQuantum : Nat

/-- The part of `ngtcp2_cc_ack` that BBR reads. -/
structure CcAck where
  bytesDelivered : Nat
  pktDelivered : Nat
  bytesLost : Nat
  largestPktSentTs : WithTop Nat
  rtt : WithTop Nat

/-- The part of `ngtcp2_cc_pkt` that BBR reads when a packet is lost. -/
structure CcPkt where
  pktlen : Nat
  lost : Nat
  txInFlight : Nat
  isAppLimited : Bool
  deriving DecidableEq, Repr

/-- The controller with what it points to. No function reads the last four fields: whether every product of a rate or
of a loss has fit a word so far, the times when ProbeBW_DOWN was entered, the congestion window when ProbeRTT was
entered last, and for each time it was left the window on entry and the one when leaving. -/
structure Cc where
  bbr : CcBbr
  stat : Stat
  rst : Rst
  pcg : Nat → Nat
  exact : Bool
  downs : List Nat
  entryCwnd : Nat
  exits : List (Nat × Nat)

/-- What stops a callback: an assertion, an arithmetic operation on a value that is not set, or a division by zero. -/
inductive BbrStop
  | assertion
  | unset
  | divZero
  deriving DecidableEq, Repr

def div (a b : Nat) : Except BbrStop Nat :=
  if b = 0 then .error .divZero else .ok (a / b)

/-- The product of two words. -/
def mul (a b : Nat) : Nat :=
  a * b % 2 ^ 64

/-- The smaller one, of which the second may be unset. -/
def atMost (n : Nat) : WithTop Nat → Nat
  | none => n
  | some m => min n m

/-- `NGTCP2_MILLISECONDS` -/
def milliseconds : Nat :=
  1000000

namespace Cc

variable (c : Cc) (ack : CcAck) (ts : Nat)

/-- Notes whether the product fits a word. -/
def multiplies (a b : Nat) : Cc :=
  { c with exact := c.exact && decide (a * b < 2 ^ 64) }

/-- `bbr_is_in_probe_bw_state` -/
def isInProbeBwState : Bool :=
  match c.bbr.state with
  | .probeBwDown | .probeBwCruise | .probeBwRefill | .probeBwUp => true
  | _ => false

/-- `bbr_is_probing_bw` -/
def isProbingBw : Bool :=
  match c.bbr.state with
  | .startup | .probeBwRefill | .probeBwUp => true
  | _ => false

/-- `min_pipe_cwnd` of the present size -/
def minPipeCwnd : Nat :=
  c.stat.maxTxUdpPayloadSize * 4

/-- `bbr_reset_congestion_signals` -/
def resetCongestionSignals : Cc :=
  { c with bbr.lossInRound := false, bbr.bwLatest := 0, bbr.inflightLatest := 0 }

/-- `bbr_reset_shortterm_model` -/
def resetShorttermModel : Cc :=
  { c with bbr.bwShortterm := ⊤, bbr.inflightShortterm := ⊤ }

/-- `bbr_reset_full_bw` -/
def resetFullBw : Cc :=
  { c with bbr.fullBw := 0, bbr.fullBwCount := 0, bbr.fullBwNow := false }

/-- `bbr_start_round` -/
def startRound : Cc :=
  { c with bbr.nextRoundDelivered := c.rst.delivered }

/-- `bbr_bdp_multiple` -/
def bdpMultiple (gainH : Nat) : Cc × Nat :=
  match c.bbr.minRtt with
  | none => (c, c.bbr.initialCwnd)
  | some minRtt =>
      let c := c.multiplies c.bbr.bw minRtt
      let c := { c with bbr.bdp := max (mul c.bbr.bw minRtt / seconds) 1 }
      (c.multiplies c.bbr.bdp gainH, mul c.bbr.bdp gainH / 100)

/-- `bbr_quantization_budget`, with `bbr_update_offload_budget` -/
def quantizationBudget (inflight : Nat) : Cc × Nat :=
  let c := { c with bbr.offloadBudget := 3 * c.stat.sendQuantum }
  let inflight := max (max inflight c.bbr.offloadBudget) c.minPipeCwnd
  (c, if c.bbr.state = .probeBwUp then inflight + 2 * c.stat.maxTxUdpPayloadSize else inflight)

/-- `bbr_inflight` -/
def inflight (gainH : Nat) : Cc × Nat :=
  let (c, inflight) := c.bdpMultiple gainH
  c.quantizationBudget inflight

/-- `bbr_target_inflight` -/
def targetInflight : Nat :=
  min c.bbr.bdp c.stat.cwnd

/-- `bbr_inflight_with_headroom` -/
def inflightWithHeadroom : WithTop Nat :=
  match c.bbr.inflightLongterm with
  | none => ⊤
  | some inflightLongterm =>
      let headroom := max c.stat.maxTxUdpPayloadSize (mul inflightLongterm 15 / 100)
      if inflightLongterm > headroom then (max (inflightLongterm - headroom) c.minPipeCwnd : Nat) else (c.minPipeCwnd : Nat)

/-- `bbr_is_inflight_too_high` -/
def isInflightTooHigh (lost txInFlight : Nat) : Cc × Bool :=
  ((c.multiplies lost 100).multiplies txInFlight 2, mul lost 100 > mul txInFlight 2)

/-- `ngtcp2_pcg32_rand_n` -/
def pcgRandN (n : Nat) : Cc × Nat :=
  ({ c with pcg := fun i => c.pcg (i + 1) }, c.pcg 0 % 2 ^ 32 * n / 2 ^ 32)

/-- `bbr_pick_probe_wait` -/
def pickProbeWait : Cc :=
  let (c, rounds) := c.pcgRandN 2
  let (c, wait) := c.pcgRandN (seconds + 1)
  { c with bbr.roundsSinceBwProbe := rounds, bbr.bwProbeWait := 2 * seconds + wait }

/-- `bbr_init_pacing_rate` -/
def initPacingRate : Except BbrStop Cc := do
  let rtt := if c.stat.firstRttSampleTs = ⊤ then milliseconds else c.stat.smoothedRtt
  let interval ← div (mul (mul rtt 1024) 100 / 277) c.bbr.initialCwnd
  let c := (c.multiplies rtt 1024).multiplies (mul rtt 1024) 100
  .ok { c with stat.pacingIntervalM := max interval 1 }

/-- `bbr_set_pacing_rate_with_gain` -/
def setPacingRateWithGain (pacingGainH : Nat) : Except BbrStop Cc :=
  if c.bbr.bw = 0 then .ok c
  else do
    let interval ← div (mul (mul (mul seconds 1024) 100) 100) pacingGainH
    let interval ← div interval c.bbr.bw
    let interval := max (interval / 99) 1
    let c := ((c.multiplies seconds 1024).multiplies (mul seconds 1024) 100).multiplies (mul (mul seconds 1024) 100) 100
    if c.bbr.fullBwReached || interval < c.stat.pacingIntervalM then .ok { c with stat.pacingIntervalM := interval }
    else .ok c

/-- `bbr_enter_startup` -/
def enterStartup : Cc :=
  { c with bbr.state := .startup, bbr.pacingGainH := 277, bbr.cwndGainH := 200 }

/-- `bbr_enter_drain` -/
def enterDrain : Cc :=
  { c with bbr.state := .drain, bbr.pacingGainH := 50, bbr.cwndGainH := 200, bbr.drainStartRound := c.bbr.roundCount }

/-- `bbr_start_probe_bw_down` -/
def startProbeBwDown : Cc :=
  let c := c.resetCongestionSignals
  let c := { c with bbr.probeUpCnt := ⊤ }.pickProbeWait
  let c := { c with bbr.cycleStamp := (ts : WithTop Nat), bbr.ackPhase := .acksProbeStopping, downs := ts :: c.downs }.startRound
  { c with bbr.state := .probeBwDown, bbr.pacingGainH := 90, bbr.cwndGainH := 200 }

/-- `bbr_start_probe_bw_cruise` -/
def startProbeBwCruise : Cc :=
  { c with bbr.state := .probeBwCruise, bbr.pacingGainH := 100, bbr.cwndGainH := 200 }

/-- `bbr_start_probe_bw_refill` -/
def startProbeBwRefill : Cc :=
  let c := c.resetShorttermModel
  let c := { c with bbr.bwProbeUpRounds := 0, bbr.bwProbeUpAcks := 0, bbr.ackPhase := .acksRefilling }.startRound
  { c with bbr.state := .probeBwRefill, bbr.pacingGainH := 100, bbr.cwndGainH := 200 }

/-- `bbr_raise_inflight_longterm_slope` -/
def raiseInflightLongtermSlope : Except BbrStop Cc := do
  let growthThisRound := mul c.stat.maxTxUdpPayloadSize (2 ^ c.bbr.bwProbeUpRounds)
  let cnt ← div c.stat.cwnd growthThisRound
  .ok { c with bbr.bwProbeUpRounds := min (c.bbr.bwProbeUpRounds + 1) 30, bbr.probeUpCnt := (max cnt 1 : Nat) }

/-- The part of `bbr_start_probe_bw_up` that enters the state. -/
def enterProbeBwUp : Cc :=
  let c := { c with bbr.ackPhase := .acksProbeStarting }.startRound.resetFullBw
  { c with
    bbr.fullBw := c.stat.deliveryRateSec
    bbr.state := .probeBwUp
    bbr.pacingGainH := 125
    bbr.cwndGainH := 225 }

/-- `bbr_start_probe_bw_up` -/
def startProbeBwUp : Except BbrStop Cc :=
  c.enterProbeBwUp.raiseInflightLongtermSlope

/-- `bbr_save_cwnd` -/
def saveCwnd : Cc :=
  if !c.bbr.inLossRecovery ∧ c.bbr.state ≠ .probeRtt then { c with bbr.priorCwnd := c.stat.cwnd }
  else { c with bbr.priorCwnd := max c.bbr.priorCwnd c.stat.cwnd }

/-- `bbr_restore_cwnd` -/
def restoreCwnd : Cc :=
  { c with stat.cwnd := max c.stat.cwnd c.bbr.priorCwnd }

/-- `in_congestion_recovery` -/
def inCongestionRecovery (sentTime : WithTop Nat) : Bool :=
  c.stat.congestionRecoveryStartTs ≠ ⊤ && decide (sentTime ≤ c.stat.congestionRecoveryStartTs)

/-- `bbr_handle_recovery` -/
def handleRecovery : Cc :=
  if !c.bbr.inLossRecovery then c
  else if ack.largestPktSentTs ≠ ⊤ ∧ !c.inCongestionRecovery ack.largestPktSentTs then
    { c with bbr.inLossRecovery := false, bbr.roundCountAtRecovery := ⊤ }.restoreCwnd
  else c

/-- `bbr_update_latest_delivery_signals` -/
def updateLatestDeliverySignals : Cc :=
  let c := { c with
    bbr.lossRoundStart := false
    bbr.bwLatest := max c.bbr.bwLatest c.stat.deliveryRateSec
    bbr.inflightLatest := max c.bbr.inflightLatest c.rst.rs.delivered }
  if c.bbr.lossRoundDelivered ≤ (c.rst.rs.priorDelivered : WithTop Nat) then
    { c with bbr.lossRoundDelivered := (c.rst.delivered : WithTop Nat), bbr.lossRoundStart := true }
  else c

/-- `bbr_advance_latest_delivery_signals` -/
def advanceLatestDeliverySignals : Cc :=
  if c.bbr.lossRoundStart then { c with bbr.bwLatest := c.stat.deliveryRateSec, bbr.inflightLatest := c.rst.rs.delivered }
  else c

/-- `bbr_update_round` -/
def updateRound : Cc :=
  if ack.pktDelivered ≥ c.bbr.nextRoundDelivered then
    let c := c.startRound
    { c with
      bbr.roundCount := c.bbr.roundCount + 1
      bbr.roundsSinceBwProbe := c.bbr.roundsSinceBwProbe + 1
      bbr.roundStart := true
      bbr.bytesLostInRound := 0
      bbr.lossEventsInRound := 0
      rst.isCwndLimited := false }
  else { c with bbr.roundStart := false }

/-- `bbr_update_max_bw` -/
def updateMaxBw : Cc :=
  let c := c.updateRound ack
  if c.stat.deliveryRateSec ≠ 0 ∧ (c.stat.deliveryRateSec ≥ c.bbr.maxBw ∨ !c.rst.rs.isAppLimited) then
    let filter := c.bbr.maxBwFilter.update ⟨c.stat.deliveryRateSec, c.bbr.cycleCount, 0⟩
    { c with bbr.maxBwFilter := filter, bbr.maxBw := filter.getBest }
  else c

/-- `bbr_init_lower_bounds` -/
def initLowerBounds : Cc :=
  { c with
    bbr.bwShortterm := if c.bbr.bwShortterm = ⊤ then (c.bbr.maxBw : WithTop Nat) else c.bbr.bwShortterm
    bbr.inflightShortterm := if c.bbr.inflightShortterm = ⊤ then (c.stat.cwnd : WithTop Nat) else c.bbr.inflightShortterm }

/-- `bbr_loss_lower_bounds` -/
def lossLowerBounds : Except BbrStop Cc :=
  match c.bbr.bwShortterm, c.bbr.inflightShortterm with
  | some bwShortterm, some inflightShortterm =>
      .ok { c with
        bbr.bwShortterm := (max c.bbr.bwLatest (mul bwShortterm 7 / 10) : Nat)
        bbr.inflightShortterm := (max c.bbr.inflightLatest (mul inflightShortterm 7 / 10) : Nat) }
  | _, _ => .error .unset

/-- `bbr_adapt_lower_bounds_from_congestion` -/
def adaptLowerBoundsFromCongestion : Except BbrStop Cc :=
  if c.isProbingBw then .ok c
  else if c.bbr.lossInRound then c.initLowerBounds.lossLowerBounds
  else .ok c

/-- `bbr_update_congestion_signals` -/
def updateCongestionSignals : Except BbrStop Cc := do
  let c := c.updateMaxBw ack
  let c :=
    if ack.bytesLost ≠ 0 then
      { c with
        bbr.bytesLostInRound := c.bbr.bytesLostInRound + ack.bytesLost
        bbr.lossEventsInRound := c.bbr.lossEventsInRound + 1 }
    else c
  if !c.bbr.lossRoundStart then .ok c
  else do
    let c ← c.adaptLowerBoundsFromCongestion
    .ok { c with bbr.lossInRound := false }

/-- `bbr_update_ack_aggregation` -/
def updateAckAggregation : Cc :=
  let interval := sub64 ts c.bbr.extraAckedIntervalStart
  let c := c.multiplies c.bbr.bw interval
  let expectedDelivered := mul c.bbr.bw interval / seconds
  let restarts : Bool := c.bbr.extraAckedDelivered ≤ expectedDelivered
  let expectedDelivered := if restarts then 0 else expectedDelivered
  let c := if restarts then { c with bbr.extraAckedDelivered := 0, bbr.extraAckedIntervalStart := ts } else c
  let c := { c with bbr.extraAckedDelivered := c.bbr.extraAckedDelivered + ack.bytesDelivered }
  let extra :=
    if c.bbr.extraAckedDelivered ≤ expectedDelivered then 0
    else min (c.bbr.extraAckedDelivered - expectedDelivered) c.stat.cwnd
  let filter := { c.bbr.extraAckedFilter with windowLength := if c.bbr.fullBwReached then 10 else 1 }
  let filter := filter.update ⟨extra, c.bbr.roundCount, 0⟩
  { c with bbr.extraAckedFilter := filter, bbr.extraAcked := filter.getBest }

/-- `bbr_check_full_bw_reached` -/
def checkFullBwReached : Cc :=
  if c.bbr.fullBwNow || !c.bbr.roundStart || c.rst.rs.isAppLimited then c
  else
    let c := (c.multiplies c.stat.deliveryRateSec 100).multiplies c.bbr.fullBw 125
    if mul c.stat.deliveryRateSec 100 ≥ mul c.bbr.fullBw 125 then
      { c.resetFullBw with bbr.fullBw := c.stat.deliveryRateSec }
    else
      let c := { c with bbr.fullBwCount := c.bbr.fullBwCount + 1, bbr.fullBwNow := decide (c.bbr.fullBwCount + 1 ≥ 3) }
      if !c.bbr.fullBwNow then c else { c with bbr.fullBwReached := true }

/-- `bbr_check_startup_high_loss` -/
def checkStartupHighLoss : Cc :=
  if c.bbr.fullBwReached ∨ c.bbr.lossEventsInRound ≤ 6 ∨
      (c.bbr.inLossRecovery ∧ (c.bbr.roundCount : WithTop Nat) ≤ c.bbr.roundCountAtRecovery) then c
  else
    let (c, tooHigh) := c.isInflightTooHigh c.rst.rs.lost c.rst.rs.txInFlight
    if !tooHigh then c
    else
      let (c, inflight) := { c with bbr.fullBwReached := true }.bdpMultiple c.bbr.cwndGainH
      { c with bbr.inflightLongterm := (max inflight c.bbr.inflightLatest : Nat) }

/-- `bbr_check_startup_done` -/
def checkStartupDone : Cc :=
  let c := c.checkStartupHighLoss
  if c.bbr.state = .startup ∧ c.bbr.fullBwReached then c.enterDrain else c

/-- `bbr_check_drain_done`, with `bbr_enter_probe_bw` -/
def checkDrainDone : Cc :=
  if c.bbr.state = .drain then
    let (c, inflight) := c.inflight 100
    if c.stat.bytesInFlight ≤ inflight ∨ c.bbr.roundCount > c.bbr.drainStartRound + 3 then c.startProbeBwDown ts else c
  else c

/-- The part of `bbr_probe_inflight_longterm_upward` that moves the limit. -/
def growInflightLongterm : Except BbrStop Cc :=
  match c.bbr.probeUpCnt with
  | none => .ok c
  | some probeUpCnt =>
      if c.bbr.bwProbeUpAcks ≥ mul probeUpCnt c.stat.maxTxUdpPayloadSize then do
        let delta ← div c.bbr.bwProbeUpAcks probeUpCnt
        .ok { c with
          bbr.bwProbeUpAcks := c.bbr.bwProbeUpAcks - delta * probeUpCnt
          bbr.inflightLongterm := c.bbr.inflightLongterm + (delta : WithTop Nat) }
      else .ok c

/-- `bbr_probe_inflight_longterm_upward` -/
def probeInflightLongtermUpward : Except BbrStop Cc :=
  if !c.rst.isCwndLimited ∨ (c.stat.cwnd : WithTop Nat) < c.bbr.inflightLongterm then .ok c
  else do
    let c ← growInflightLongterm { c with bbr.bwProbeUpAcks := c.bbr.bwProbeUpAcks + ack.bytesDelivered }
    if c.bbr.roundStart then c.raiseInflightLongtermSlope else .ok c

/-- The part of `bbr_adapt_longterm_model` that moves the phase, with `bbr_advance_max_bw_filter`. -/
def advanceAckPhase : Cc :=
  let c :=
    if c.bbr.ackPhase = .acksProbeStarting ∧ c.bbr.roundStart then { c with bbr.ackPhase := .acksProbeFeedback } else c
  if c.bbr.ackPhase = .acksProbeStopping ∧ c.bbr.roundStart ∧ c.isInProbeBwState ∧ !c.rst.rs.isAppLimited then
    { c with bbr.cycleCount := c.bbr.cycleCount + 1 }
  else c

/-- The part of `bbr_adapt_longterm_model` that raises the limit to what was in flight. -/
def raiseInflightLongterm : Cc :=
  if c.bbr.inflightLongterm < (c.rst.rs.txInFlight : WithTop Nat) then
    { c with bbr.inflightLongterm := (c.rst.rs.txInFlight : WithTop Nat) }
  else c

/-- `bbr_adapt_longterm_model` -/
def adaptLongtermModel : Except BbrStop Cc :=
  let c := c.advanceAckPhase
  let (c, tooHigh) := c.isInflightTooHigh c.rst.rs.lost c.rst.rs.txInFlight
  if tooHigh ∨ c.bbr.inflightLongterm = ⊤ then .ok c
  else
    let c := c.raiseInflightLongterm
    if c.bbr.state = .probeBwUp then c.probeInflightLongtermUpward ack else .ok c

/-- `bbr_has_elapsed_in_phase` -/
def hasElapsedInPhase (interval : Nat) : Except BbrStop Bool :=
  match c.bbr.cycleStamp with
  | none => .error .unset
  | some cycleStamp => .ok (ts > cycleStamp + interval)

/-- `bbr_is_reno_coexistence_probe_time` -/
def isRenoCoexistenceProbeTime : Except BbrStop Bool := do
  let renoRounds ← div c.targetInflight c.stat.maxTxUdpPayloadSize
  .ok (c.bbr.roundsSinceBwProbe ≥ min renoRounds 63)

/-- `bbr_is_time_to_probe_bw`; the state, and whether it is time. -/
def isTimeToProbeBw : Except BbrStop (Cc × Bool) := do
  if ← c.hasElapsedInPhase ts c.bbr.bwProbeWait then .ok (c.startProbeBwRefill, true)
  else if ← c.isRenoCoexistenceProbeTime then .ok (c.startProbeBwRefill, true)
  else .ok (c, false)

/-- `bbr_is_time_to_cruise` -/
def isTimeToCruise : Cc × Bool :=
  let (c, inflight) := c.inflight 100
  (c, decide ((c.stat.bytesInFlight : WithTop Nat) ≤ min c.inflightWithHeadroom inflight))

/-- `bbr_is_time_to_go_down` -/
def isTimeToGoDown : Cc × Bool :=
  if c.rst.isCwndLimited ∧ c.bbr.inflightLongterm ≤ (c.stat.cwnd : WithTop Nat) then
    ({ c.resetFullBw with bbr.fullBw := c.stat.deliveryRateSec }, false)
  else (c, c.bbr.fullBwNow)

/-- `bbr_update_probe_bw_cycle_phase` -/
def updateProbeBwCyclePhase : Except BbrStop Cc :=
  if !c.bbr.fullBwReached then .ok c
  else do
    let c ← c.adaptLongtermModel ack
    match c.bbr.state with
    | .probeBwDown => do
        let (c, probes) ← c.isTimeToProbeBw ts
        if probes then .ok c
        else
          let (c, cruises) := c.isTimeToCruise
          if cruises then .ok c.startProbeBwCruise else .ok c
    | .probeBwCruise => do
        let (c, _) ← c.isTimeToProbeBw ts
        .ok c
    | .probeBwRefill =>
        if c.bbr.roundStart then startProbeBwUp { c with bbr.bwProbeSamples := true } else .ok c
    | .probeBwUp =>
        let (c, goesDown) := c.isTimeToGoDown
        if goesDown then .ok (c.startProbeBwDown ts) else .ok c
    | _ => .ok c

/-- `bbr_update_min_rtt` -/
def updateMinRtt : Cc :=
  let c := { c with bbr.probeRttExpired := ts > 5 * seconds + c.bbr.probeRttMinStamp }
  let c :=
    if ack.rtt ≠ ⊤ ∧ (ack.rtt < c.bbr.probeRttMinDelay ∨ c.bbr.probeRttExpired) then
      { c with bbr.probeRttMinDelay := ack.rtt, bbr.probeRttMinStamp := ts }
    else c
  if c.bbr.probeRttMinDelay < c.bbr.minRtt ∨ ts > 10 * seconds + c.bbr.minRttStamp then
    { c with bbr.minRtt := c.bbr.probeRttMinDelay, bbr.minRttStamp := c.bbr.probeRttMinStamp }
  else c

/-- `bbr_enter_probe_rtt` -/
def enterProbeRtt : Cc :=
  { c with bbr.state := .probeRtt, bbr.pacingGainH := 100, bbr.cwndGainH := 50, entryCwnd := c.stat.cwnd }

/-- `bbr_probe_rtt_cwnd` -/
def probeRttCwnd : Cc × Nat :=
  let (c, probeRttCwnd) := c.bdpMultiple 50
  (c, max probeRttCwnd c.minPipeCwnd)

/-- `bbr_mark_connection_app_limited` -/
def markConnectionAppLimited : Cc :=
  { c with rst.appLimited := max (c.rst.delivered + c.stat.bytesInFlight) 1 }

/-- `bbr_exit_probe_rtt` -/
def exitProbeRtt : Cc :=
  let c := { c.resetShorttermModel with exits := (c.entryCwnd, c.stat.cwnd) :: c.exits }
  if c.bbr.fullBwReached then (c.startProbeBwDown ts).startProbeBwCruise else c.enterStartup

/-- `bbr_check_probe_rtt_done` -/
def checkProbeRttDone : Cc :=
  if c.bbr.probeRttDoneStamp < (ts : WithTop Nat) then
    ({ c with bbr.probeRttMinStamp := ts }.restoreCwnd).exitProbeRtt ts
  else c

/-- `bbr_handle_probe_rtt` -/
def handleProbeRtt : Cc :=
  let c := c.markConnectionAppLimited
  if c.bbr.probeRttDoneStamp = ⊤ then
    let (c, cwnd) := c.probeRttCwnd
    if c.stat.bytesInFlight ≤ cwnd then
      { c with bbr.probeRttDoneStamp := (200 * milliseconds + ts : Nat), bbr.probeRttRoundDone := false }.startRound
    else c
  else
    let c := if c.bbr.roundStart then { c with bbr.probeRttRoundDone := true } else c
    if c.bbr.probeRttRoundDone then c.checkProbeRttDone ts else c

/-- The part of `bbr_check_probe_rtt` that enters ProbeRTT. -/
def startProbeRtt : Cc :=
  { c.enterProbeRtt.saveCwnd with bbr.probeRttDoneStamp := ⊤, bbr.ackPhase := .acksProbeStopping }.startRound

/-- `bbr_check_probe_rtt` -/
def checkProbeRtt : Cc :=
  let c := if c.bbr.state ≠ .probeRtt ∧ c.bbr.probeRttExpired ∧ !c.bbr.idleRestart then c.startProbeRtt else c
  let c := if c.bbr.state = .probeRtt then c.handleProbeRtt ts else c
  if c.rst.rs.delivered ≠ 0 then { c with bbr.idleRestart := false } else c

/-- `bbr_bound_bw_for_model` -/
def boundBwForModel : Cc :=
  { c with bbr.bw := atMost c.bbr.maxBw c.bbr.bwShortterm }

/-- `bbr_update_model_and_state` -/
def updateModelAndState : Except BbrStop Cc := do
  let c ← c.updateLatestDeliverySignals.updateCongestionSignals ack
  let c := (((c.updateAckAggregation ack ts).checkFullBwReached).checkStartupDone).checkDrainDone ts
  let c ← c.updateProbeBwCyclePhase ack ts
  .ok (((c.updateMinRtt ack ts).checkProbeRtt ts).advanceLatestDeliverySignals).boundBwForModel

/-- `bbr_set_pacing_rate` -/
def setPacingRate : Except BbrStop Cc :=
  c.setPacingRateWithGain c.bbr.pacingGainH

/-- `bbr_set_send_quantum` -/
def setSendQuantum : Except BbrStop Cc := do
  let quantum ← div (milliseconds * 1024) c.stat.pacingIntervalM
  .ok { c with stat.sendQuantum := max (min (64 * 1024) quantum) (2 * c.stat.maxTxUdpPayloadSize) }

/-- `bbr_update_max_inflight` -/
def updateMaxInflight : Cc :=
  let (c, inflight) := c.bdpMultiple c.bbr.cwndGainH
  let (c, maxInflight) := c.quantizationBudget (inflight + c.bbr.extraAcked)
  { c with bbr.maxInflight := maxInflight }

/-- `bbr_bound_cwnd_for_probe_rtt` -/
def boundCwndForProbeRtt : Cc :=
  if c.bbr.state = .probeRtt then
    let (c, cwnd) := c.probeRttCwnd
    { c with stat.cwnd := min c.stat.cwnd cwnd }
  else c

/-- `bbr_bound_cwnd_for_model` -/
def boundCwndForModel : Cc :=
  let cap : WithTop Nat :=
    if c.isInProbeBwState ∧ c.bbr.state ≠ .probeBwCruise then c.bbr.inflightLongterm
    else if c.bbr.state = .probeRtt ∨ c.bbr.state = .probeBwCruise then c.inflightWithHeadroom
    else ⊤
  let cap := max (min cap c.bbr.inflightShortterm) c.minPipeCwnd
  { c with stat.cwnd := atMost c.stat.cwnd cap }

/-- `bbr_set_cwnd` -/
def setCwnd : Cc :=
  let c := c.updateMaxInflight
  let cwnd :=
    if c.bbr.fullBwReached then min (c.stat.cwnd + ack.bytesDelivered) c.bbr.maxInflight
    else if c.stat.cwnd < c.bbr.maxInflight ∨ c.rst.delivered < c.bbr.initialCwnd then c.stat.cwnd + ack.bytesDelivered
    else c.stat.cwnd
  let c := { c with stat.cwnd := max cwnd c.minPipeCwnd }
  c.boundCwndForProbeRtt.boundCwndForModel

/-- `bbr_update_control_parameters` -/
def updateControlParameters : Except BbrStop Cc := do
  let c ← c.setPacingRate
  let c ← c.setSendQuantum
  .ok (c.setCwnd ack)

/-- The part of `bbr_on_init` before the pacing rate is set. -/
def startAnew (initialTs : Nat) : Cc :=
  { c with
    stat.sendQuantum := c.stat.maxTxUdpPayloadSize * 10
    bbr := .start c.bbr.initialCwnd (if c.stat.firstRttSampleTs = ⊤ then ⊤ else (c.stat.smoothedRtt : WithTop Nat)) initialTs }

/-- `bbr_on_init` -/
def onInit (initialTs : Nat) : Except BbrStop Cc :=
  (c.startAnew initialTs).initPacingRate

/-- `bbr_cc_on_ack_recv`, with `bbr_update_on_ack` -/
def onAckRecv : Except BbrStop Cc :=
  let c := c.handleRecovery ack
  if ack.bytesDelivered = 0 then .ok c
  else do
    let c ← c.updateModelAndState ack ts
    c.updateControlParameters ack

/-- `bbr_note_loss`, with `bbr_save_state_upon_loss` -/
def noteLoss : Cc :=
  let c :=
    if !c.bbr.lossInRound then
      { c with
        bbr.lossRoundDelivered := (c.rst.delivered : WithTop Nat)
        bbr.undoState := c.bbr.state
        bbr.undoBwShortterm := c.bbr.bwShortterm
        bbr.undoInflightShortterm := c.bbr.inflightShortterm
        bbr.undoInflightLongterm := c.bbr.inflightLongterm }
    else c
  { c with bbr.lossInRound := true }

/-- `bbr_inflight_at_loss` -/
def inflightAtLoss (pkt : CcPkt) (lost : Nat) : Except BbrStop Nat :=
  if pkt.txInFlight < pkt.pktlen ∨ lost < pkt.pktlen then .error .assertion
  else
    let inflightPrev := pkt.txInFlight - pkt.pktlen
    let lostPrev := lost - pkt.pktlen
    if mul inflightPrev 2 < mul lostPrev 100 then .ok inflightPrev
    else .ok (inflightPrev + (mul inflightPrev 2 - mul lostPrev 100) / 98)

/-- `bbr_handle_inflight_too_high` -/
def handleInflightTooHigh (txInFlight : Nat) (isAppLimited : Bool) : Cc :=
  let c := { c with bbr.bwProbeSamples := false }
  let c :=
    if !isAppLimited then { c with bbr.inflightLongterm := (max txInFlight (mul c.targetInflight 7 / 10) : Nat) } else c
  if c.bbr.state = .probeBwUp then c.startProbeBwDown ts else c

/-- `bbr_cc_on_pkt_lost`, with `bbr_handle_lost_packet` -/
def onPktLost (pkt : CcPkt) : Except BbrStop Cc :=
  let c := c.noteLoss
  if !c.bbr.bwProbeSamples then .ok c
  else if c.rst.lost < pkt.lost then .error .assertion
  else
    let lost := c.rst.lost - pkt.lost
    let (c, tooHigh) := c.isInflightTooHigh lost pkt.txInFlight
    if tooHigh then do
      let txInFlight ← inflightAtLoss pkt lost
      .ok (c.handleInflightTooHigh ts txInFlight pkt.isAppLimited)
    else .ok c

/-- `bbr_cc_congestion_event` -/
def congestionEvent (sentTs : Nat) : Cc :=
  if c.bbr.inLossRecovery ∨ c.inCongestionRecovery sentTs then c
  else
    let c := { c with
      bbr.inLossRecovery := true
      bbr.roundCountAtRecovery := (if c.bbr.roundStart then c.bbr.roundCount else c.bbr.roundCount + 1 : Nat) }
    { c.saveCwnd with stat.congestionRecoveryStartTs := (ts : WithTop Nat) }

/-- The part of `bbr_handle_spurious_loss_detection` that takes back the limits. -/
def undoLimits : Cc :=
  let c := { c with bbr.lossInRound := false }.resetFullBw
  { c with
    bbr.bwShortterm := max c.bbr.bwShortterm c.bbr.undoBwShortterm
    bbr.inflightShortterm := max c.bbr.inflightShortterm c.bbr.undoInflightShortterm
    bbr.inflightLongterm := max c.bbr.inflightLongterm c.bbr.undoInflightLongterm }

/-- `bbr_handle_spurious_loss_detection` -/
def handleSpuriousLossDetection : Except BbrStop Cc :=
  let c := c.undoLimits
  if c.bbr.state ≠ .probeRtt ∧ c.bbr.state ≠ c.bbr.undoState then
    match c.bbr.undoState with
    | .startup => .ok c.enterStartup
    | .probeBwUp => c.startProbeBwUp
    | _ => .ok c
  else .ok c

/-- `bbr_cc_on_spurious_congestion` -/
def onSpuriousCongestion : Except BbrStop Cc :=
  { c with
    stat.congestionRecoveryStartTs := ⊤
    bbr.inLossRecovery := false
    bbr.roundCountAtRecovery := ⊤ }.restoreCwnd.handleSpuriousLossDetection

/-- `bbr_cc_on_persistent_congestion` -/
def onPersistentCongestion : Cc :=
  let c := { c with
    stat.congestionRecoveryStartTs := ⊤
    bbr.inLossRecovery := false
    bbr.roundCountAtRecovery := ⊤ }.saveCwnd
  { c with stat.cwnd := max (c.stat.bytesInFlight + c.stat.maxTxUdpPayloadSize) c.minPipeCwnd }

/-- `bbr_cc_on_pkt_sent`, with `bbr_handle_restart_from_idle` -/
def onPktSent : Except BbrStop Cc :=
  if c.stat.bytesInFlight = 0 ∧ c.rst.appLimited ≠ 0 then
    let c := { c with bbr.idleRestart := true, bbr.extraAckedIntervalStart := ts }
    if c.isInProbeBwState then c.setPacingRateWithGain 100
    else if c.bbr.state = .probeRtt then .ok (c.checkProbeRttDone ts)
    else .ok c
  else .ok c

end Cc

end Zngtcp2.Bbr
