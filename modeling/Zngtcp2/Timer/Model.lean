import Zngtcp2.Rtb.Runs
import Zngtcp2.Scid.PoolRuns
import Zngtcp2.Pmtud.Runs

namespace Zngtcp2.Timer

open ScidPool (tstampElapsed)

/-- What ends `ngtcp2_conn_handle_expiry` other than with 0. -/
inductive Err
  | stop (stop : Strm.Stop)
  | pmtud (stop : Pmtud.Stop)
  | idleClose
  | handshakeTimeout
  | connectionIdLimit
  deriving DecidableEq, Repr

/-- `ngtcp2_tstamp_not_elapsed` -/
def tstampNotElapsed (base d ts : Nat) : Bool :=
  base ≠ uint64Max && (uint64Max ≤ base + d || ts < base + d)

/-- The timer of `ngtcp2_acktr`. -/
structure AckTimer where
  firstUnackedTs : Nat
  cancelTimer : Bool
  deriving DecidableEq, Repr

namespace AckTimer

variable (a : AckTimer)

/-- `ngtcp2_conn_ack_delay_expiry` -/
def expiry (ackDelay : Nat) : Nat :=
  if !a.cancelTimer && a.firstUnackedTs ≠ uint64Max then a.firstUnackedTs + ackDelay else uint64Max

/-- `acktr_cancel_expired_ack_delay_timer` -/
def cancelExpired (maxAckDelay ts : Nat) : AckTimer :=
  if !a.cancelTimer && tstampElapsed a.firstUnackedTs maxAckDelay ts then { a with cancelTimer := true } else a

/-- The timer part of `ngtcp2_acktr_add`. -/
def add (activeAck : Bool) (ts : Nat) : AckTimer :=
  if activeAck && a.firstUnackedTs = uint64Max then { a with firstUnackedTs := ts } else a

end AckTimer

/-- The timer that `ngtcp2_acktr_init` and `ngtcp2_acktr_commit_ack` leave. -/
def AckTimer.committed : AckTimer :=
  ⟨uint64Max, false⟩

/-- `NGTCP2_PV_MAX_ENTRIES` -/
def pvMaxEntries : Nat :=
  8

/-- The expiries of the entries of `ngtcp2_pv`, the newest one first. -/
structure Pv where
  ents : List Nat
  cancelTimer : Bool
  deriving DecidableEq, Repr

namespace Pv

variable (pv : Pv)

/-- `ngtcp2_pv_next_expiry` -/
def nextExpiry : Nat :=
  match pv.cancelTimer, pv.ents with
  | false, expiry :: _ => expiry
  | _, _ => uint64Max

/-- `ngtcp2_pv_cancel_expired_timer` -/
def cancelExpiredTimer (ts : Nat) : Pv :=
  if ts < pv.nextExpiry then pv else { pv with cancelTimer := true }

/-- `ngtcp2_pv_add_entry`; a full ring buffer loses its oldest entry. -/
def addEntry (expiry : Nat) : Pv :=
  ⟨(expiry :: pv.ents).take pvMaxEntries, false⟩

end Pv

structure KeepAlive where
  lastTs : Nat
  timeout : Nat
  cancelled : Bool
  deriving DecidableEq, Repr

namespace KeepAlive

variable (k : KeepAlive)

/-- `conn_keep_alive_expiry` -/
def expiry (handshakeCompleted : Bool) : Nat :=
  if k.cancelled || !handshakeCompleted || k.lastTs = uint64Max || k.timeout = uint64Max ||
      uint64Max - k.timeout ≤ k.lastTs then uint64Max
  else k.lastTs + k.timeout

/-- `conn_cancel_expired_keep_alive_timer` -/
def cancelExpired (ts : Nat) : KeepAlive :=
  if !k.cancelled && tstampElapsed k.lastTs k.timeout ts then { k with cancelled := true } else k

/-- `conn_update_keep_alive_last_ts` -/
def update (ts : Nat) : KeepAlive :=
  { k with lastTs := ts, cancelled := false }

/-- `ngtcp2_conn_set_keep_alive_timeout` -/
def setTimeout (timeout : Nat) : KeepAlive :=
  { k with timeout := if timeout = 0 then uint64Max else timeout }

end KeepAlive

structure Pacing where
  nextTs : Nat
  compensation : Nat
  deriving DecidableEq, Repr

namespace Pacing

variable (p : Pacing)

/-- `conn_cancel_expired_pkt_tx_timer` -/
def cancelExpired (ts : Nat) : Pacing :=
  if p.nextTs = uint64Max then p
  else if ts < p.nextTs then p
  else ⟨uint64Max, if p.nextTs < ts then p.compensation + (ts - p.nextTs) else p.compensation⟩

/-- `conn_pacing_pkt_tx_allowed`, without its answer. -/
def pktTxAllowed (ts : Nat) : Pacing :=
  if p.nextTs = uint64Max then p
  else if ts < p.nextTs then p
  else ⟨uint64Max, p.compensation + (ts - p.nextTs)⟩

/-- `ngtcp2_conn_update_pkt_tx_time`, where packets were sent that are worth a time of `wait`. -/
def updatePktTxTime (wait ts : Nat) : Pacing :=
  let d := min (wait / 2) p.compensation
  ⟨ts + (wait - d), p.compensation - d⟩

end Pacing

/-- A destination connection ID with its `bound_ts` or `retired_ts`. -/
structure Dcid where
  seq : Nat
  ts : Nat
  deriving DecidableEq, Repr

/-- `ngtcp2_dcidtr`, without the connection IDs that are not in use yet; `retireUnacked` holds the sequence
numbers whose retirement is not acknowledged. -/
structure Dcidtr where
  bound : List Dcid
  retired : List Dcid
  retireUnacked : List Nat
  deriving DecidableEq, Repr

/-- `NGTCP2_DCIDTR_MAX_BOUND_DCID_SIZE` -/
def maxBoundDcidSize : Nat :=
  4

/-- `NGTCP2_DCIDTR_MAX_UNUSED_DCID_SIZE` -/
def maxUnusedDcidSize : Nat :=
  8

/-- `NGTCP2_DCIDTR_MAX_RETIRED_DCID_SIZE` -/
def maxRetiredDcidSize : Nat :=
  2

/-- `remove_dcid_at` -/
def removeDcidAt (rb : List Dcid) (i : Nat) : List Dcid :=
  if i = 0 then rb.tail
  else if i = rb.length - 1 then rb.dropLast
  else
    match rb.getLast? with
    | some src => (rb.set i src).dropLast
    | none => rb

namespace Dcidtr

variable (dtr : Dcidtr)

/-- `dcidtr_on_retire` -/
def onRetire (seq : Nat) : Except Err Dcidtr :=
  if seq ∈ dtr.retireUnacked then .ok dtr
  else if maxUnusedDcidSize * 2 ≤ dtr.retireUnacked.length then .error .connectionIdLimit
  else .ok { dtr with retireUnacked := dtr.retireUnacked ++ [seq] }

/-- The loop of `ngtcp2_dcidtr_retire_stale_bound_dcid`, in which `n` entries are left from `i` on. -/
def retireStaleLoop (timeout ts : Nat) : Nat → Nat → Dcidtr → Except Err Dcidtr
  | 0, _, dtr => .ok dtr
  | n + 1, i, dtr =>
      match dtr.bound[i]? with
      | none => .ok dtr
      | some dcid =>
          if tstampNotElapsed dcid.ts timeout ts then retireStaleLoop timeout ts n (i + 1) dtr
          else do
            let dtr ← dtr.onRetire dcid.seq
            retireStaleLoop timeout ts n i { dtr with bound := removeDcidAt dtr.bound i }

/-- `ngtcp2_dcidtr_retire_stale_bound_dcid` -/
def retireStaleBoundDcid (timeout ts : Nat) : Except Err Dcidtr :=
  retireStaleLoop timeout ts dtr.bound.length 0 dtr

/-- `ngtcp2_dcidtr_remove_stale_retired_dcid` -/
def removeStaleRetiredDcid (timeout ts : Nat) : Dcidtr :=
  { dtr with retired := dtr.retired.dropWhile fun dcid => !tstampNotElapsed dcid.ts timeout ts }

/-- `ngtcp2_dcidtr_earliest_bound_ts` -/
def earliestBoundTs : Nat :=
  dtr.bound.foldr (fun dcid res => min dcid.ts res) uint64Max

/-- `ngtcp2_dcidtr_earliest_retired_ts` -/
def earliestRetiredTs : Nat :=
  match dtr.retired with
  | [] => uint64Max
  | dcid :: _ => dcid.ts

/-- `ngtcp2_dcidtr_bind_dcid`, with an unused connection ID of the sequence number `seq`. -/
def bindDcid (seq ts : Nat) : Except Err Dcidtr :=
  match dtr.bound with
  | dcid :: rest =>
      if maxBoundDcidSize ≤ dtr.bound.length then do
        let dtr ← dtr.onRetire dcid.seq
        .ok { dtr with bound := rest ++ [⟨seq, ts⟩] }
      else .ok { dtr with bound := dtr.bound ++ [⟨seq, ts⟩] }
  | [] => .ok { dtr with bound := [⟨seq, ts⟩] }

/-- `ngtcp2_dcidtr_bind_zerolen_dcid`; a full ring buffer loses its first entry. -/
def bindZerolenDcid : Dcidtr :=
  if maxBoundDcidSize ≤ dtr.bound.length then { dtr with bound := dtr.bound.tail ++ [⟨0, uint64Max⟩] }
  else { dtr with bound := dtr.bound ++ [⟨0, uint64Max⟩] }

/-- `ngtcp2_dcidtr_retire_active_dcid` -/
def retireActiveDcid (seq ts : Nat) : Except Err Dcidtr :=
  let retired := if maxRetiredDcidSize ≤ dtr.retired.length then dtr.retired.tail else dtr.retired
  ({ dtr with retired := retired ++ [⟨seq, ts⟩] } : Dcidtr).onRetire seq

/-- The loop of `dcidtr_retire_dcid_prior_to` on the bound connection IDs. -/
def retirePriorToLoop (seq : Nat) : Nat → Nat → Dcidtr → Except Err Dcidtr
  | 0, _, dtr => .ok dtr
  | n + 1, i, dtr =>
      match dtr.bound[i]? with
      | none => .ok dtr
      | some dcid =>
          if seq ≤ dcid.seq then retirePriorToLoop seq n (i + 1) dtr
          else do
            let dtr ← dtr.onRetire dcid.seq
            retirePriorToLoop seq n i { dtr with bound := removeDcidAt dtr.bound i }

end Dcidtr

/-- A packet number space: the timer of its ACK tracker, its retransmission buffer, and its entry of
`cstat.loss_time`. -/
structure Space where
  acktr : AckTimer
  rtb : RtbTx.State
  lossTime : Nat

namespace Space

variable (s : Space)

/-- `ngtcp2_rtb_lost_pkt_ts` -/
def lostPktTs : Nat :=
  match s.rtb.rtb.ents.getLast? with
  | none => uint64Max
  | some ent => if ent.lostRetransmitted then ent.lostTs else uint64Max

/-- The expiry of the oldest lost packet in `ngtcp2_conn_lost_pkt_expiry`. -/
def lostPktExpiry (pto : Nat) : Nat :=
  if s.lostPktTs ≠ uint64Max then s.lostPktTs + pto * 3 else uint64Max

def removeExpiredLostPkt (pto ts : Nat) : Except Err Space :=
  match s.rtb.rtb.removeExpiredLostPkt (pto * 3) ts with
  | .ok rtb => .ok { s with rtb := { s.rtb with rtb := rtb } }
  | .error stop => .error (.stop stop)

end Space

/-- The transport parameters of the peer. -/
structure RemoteParams where
  maxIdleTimeout : Nat
  maxAckDelay : Nat
  deriving DecidableEq, Repr

/-- The local settings and transport parameters. -/
structure Local where
  maxIdleTimeout : Nat
  maxAckDelay : Nat
  initialTs : Nat
  handshakeTimeout : Nat
  initialRtt : Nat
  deriving DecidableEq, Repr

structure Rtt where
  smoothedRtt : Nat
  rttvar : Nat
  deriving DecidableEq, Repr

/-- The key of 0-RTT packets, and when a server started to wait before it discards the key. -/
structure Early where
  ckm : Bool
  discardStartedTs : Nat
  deriving DecidableEq, Repr

/-- The part of a connection that decides when it wants to be called again. A time of `UINT64_MAX` stands for
none; sums of times are assumed to stay below it. -/
structure Conn where
  lastTs : Nat
  server : Bool
  settings : Local
  remote : Option RemoteParams
  tlsHandshakeCompleted : Bool
  handshakeCompleted : Bool
  rtt : Rtt
  ptoCount : Nat
  lossDetectionTimer : Nat
  inPktns : Option Space
  hsPktns : Option Space
  pktns : Space
  pv : Option Pv
  pmtud : Option Pmtud
  scid : ScidPool.Pool
  currentCidlen : Nat
  dcidtr : Dcidtr
  early : Early
  keepAlive : KeepAlive
  idleTs : Nat
  pacing : Pacing
  ppePending : Bool

/-- `NGTCP2_GRANULARITY` -/
def granularity : Nat :=
  1000000

namespace Conn

variable (c : Conn)

/-- `compute_pto` -/
def computePto (maxAckDelay : Nat) : Nat :=
  c.rtt.smoothedRtt + max (4 * c.rtt.rttvar) granularity + maxAckDelay

/-- `ngtcp2_conn_compute_pto` for the application packet number space. -/
def appPto : Nat :=
  c.computePto ((c.remote.map RemoteParams.maxAckDelay).getD 0)

/-- `ngtcp2_conn_compute_pto` for the other packet number spaces. -/
def hsPto : Nat :=
  c.computePto 0

/-- `conn_compute_ack_delay` -/
def computeAckDelay : Nat :=
  min c.settings.maxAckDelay (max (c.rtt.smoothedRtt / 8) 1)

def pvExpiry : Nat :=
  (c.pv.map Pv.nextExpiry).getD uint64Max

def pmtudExpiry : Nat :=
  (c.pmtud.map Pmtud.expiry).getD uint64Max

def scidExpiry : Nat :=
  match ScidPool.pqTop c.scid.usedScids with
  | none => uint64Max
  | some scid => if scid.retiredTs ≠ uint64Max then scid.retiredTs + c.appPto else uint64Max

def retiredDcidExpiry : Nat :=
  if c.dcidtr.earliestRetiredTs ≠ uint64Max then c.dcidtr.earliestRetiredTs + c.appPto else uint64Max

def boundDcidExpiry : Nat :=
  if c.currentCidlen ≠ 0 ∧ c.dcidtr.earliestBoundTs ≠ uint64Max then c.dcidtr.earliestBoundTs + 3 * c.appPto else uint64Max

def earlyExpiry : Nat :=
  if c.server && c.early.ckm && c.early.discardStartedTs ≠ uint64Max then c.early.discardStartedTs + 3 * c.appPto
  else uint64Max

/-- `ngtcp2_conn_internal_expiry` -/
def internalExpiry : Nat :=
  min (min (min (min (min c.pvExpiry c.pmtudExpiry) c.scidExpiry) c.retiredDcidExpiry) c.boundDcidExpiry) c.earlyExpiry

def ackDelayExpiry : Nat :=
  c.pktns.acktr.expiry c.computeAckDelay

/-- `ngtcp2_conn_lost_pkt_expiry` -/
def lostPktExpiry : Nat :=
  min (min ((c.inPktns.map (·.lostPktExpiry c.hsPto)).getD uint64Max)
    ((c.hsPktns.map (·.lostPktExpiry c.hsPto)).getD uint64Max)) (c.pktns.lostPktExpiry c.appPto)

/-- `conn_handshake_expiry` -/
def handshakeExpiry : Nat :=
  if c.tlsHandshakeCompleted || c.settings.handshakeTimeout = uint64Max ||
      uint64Max - c.settings.handshakeTimeout ≤ c.settings.initialTs then uint64Max
  else c.settings.initialTs + c.settings.handshakeTimeout

/-- The choice between the idle timeouts of the endpoints. -/
def idleTimeout : Nat :=
  match c.tlsHandshakeCompleted, c.remote with
  | true, some remote =>
      if remote.maxIdleTimeout = 0 ∨ c.settings.maxIdleTimeout ≠ 0 ∧ c.settings.maxIdleTimeout < remote.maxIdleTimeout then
        c.settings.maxIdleTimeout
      else remote.maxIdleTimeout
  | _, _ => c.settings.maxIdleTimeout

/-- `ngtcp2_conn_get_idle_expiry` -/
def getIdleExpiry : Nat :=
  if c.idleTimeout = 0 then uint64Max
  else
    let idleTimeout := max c.idleTimeout (3 * if c.tlsHandshakeCompleted then c.appPto else c.hsPto)
    if uint64Max - idleTimeout ≤ c.idleTs then uint64Max else c.idleTs + idleTimeout

/-- `ngtcp2_conn_get_expiry2` -/
def getExpiry2 : Nat :=
  min (min (min (min (min (min (min c.lossDetectionTimer c.ackDelayExpiry) c.internalExpiry) c.lostPktExpiry)
    (c.keepAlive.expiry c.handshakeCompleted)) c.handshakeExpiry) c.getIdleExpiry) c.pacing.nextTs

/-- `ngtcp2_conn_cancel_expired_ack_delay_timer` -/
def cancelExpiredAckDelayTimer (ts : Nat) : Conn :=
  { c with
    inPktns := c.inPktns.map fun s => { s with acktr := s.acktr.cancelExpired 0 ts }
    hsPktns := c.hsPktns.map fun s => { s with acktr := s.acktr.cancelExpired 0 ts }
    pktns := { c.pktns with acktr := c.pktns.acktr.cancelExpired c.computeAckDelay ts } }

/-- `ngtcp2_conn_remove_lost_pkt` -/
def removeLostPkt (ts : Nat) : Except Err Conn := do
  let inPktns ← c.inPktns.mapM (·.removeExpiredLostPkt c.hsPto ts)
  let hsPktns ← c.hsPktns.mapM (·.removeExpiredLostPkt c.hsPto ts)
  let pktns ← c.pktns.removeExpiredLostPkt c.appPto ts
  .ok { c with inPktns := inPktns, hsPktns := hsPktns, pktns := pktns }

def handlePmtudExpiry (ts : Nat) : Except Err Conn :=
  match c.pmtud with
  | none => .ok c
  | some pmtud =>
      match pmtud.handleExpiry ts with
      | .error stop => .error (.pmtud stop)
      | .ok pmtud => .ok { c with pmtud := if pmtud.finished then none else some pmtud }

inductive SpaceId
  | initial
  | handshake
  | application
  deriving DecidableEq, Repr

def space : SpaceId → Option Space
  | .initial => c.inPktns
  | .handshake => c.hsPktns
  | .application => some c.pktns

def setSpace (id : SpaceId) (s : Space) : Conn :=
  match id with
  | .initial => { c with inPktns := some s }
  | .handshake => { c with hsPktns := some s }
  | .application => { c with pktns := s }

/-- `conn_get_loss_time_and_pktns` -/
def lossTimeAndSpace : Nat × SpaceId :=
  let first := ((c.inPktns.map Space.lossTime).getD uint64Max, SpaceId.initial)
  let second :=
    match c.hsPktns with
    | some s => if first.1 ≤ s.lossTime then first else (s.lossTime, .handshake)
    | none => first
  if second.1 ≤ c.pktns.lossTime then second else (c.pktns.lossTime, .application)

/-- What the loss detection reads or computes beside the timers: the inputs of `rtb_detect_lost_pkt`, whether it
finds a persistent congestion, and the times that it leaves in `cstat`. -/
structure LossEnv where
  latestRtt : Nat
  startTs : Nat
  maxTxUdpPayloadSize : Nat
  persistentCongestion : Bool
  lossTime : Nat
  lossDetectionTimer : Nat
  deriving DecidableEq, Repr

def loss (env : LossEnv) (id : SpaceId) (ts : Nat) : RtbTx.Loss :=
  ⟨ts, env.latestRtt, c.rtt.smoothedRtt, c.rtt.rttvar, (c.remote.map RemoteParams.maxAckDelay).getD 0, env.startTs,
    env.maxTxUdpPayloadSize, id = .application⟩

/-- `ngtcp2_conn_detect_lost_pkt`, which may reset the RTT estimate. -/
def detectLostPkt (env : LossEnv) (id : SpaceId) (ts : Nat) : Except Err Conn :=
  match c.space id with
  | none => .error (.stop (.fault .assertion))
  | some s =>
      match s.rtb.step (.detectLostPkt (c.loss env id ts)) with
      | .error stop => .error (.stop stop)
      | .ok rtb =>
          .ok { c.setSpace id { s with rtb := rtb, lossTime := env.lossTime } with
            rtt := if env.persistentCongestion then ⟨c.settings.initialRtt, c.settings.initialRtt / 2⟩ else c.rtt }

/-- `ngtcp2_conn_on_loss_detection_timer` outside the closing and draining states; the probe packets that it
asks for are not modelled. -/
def onLossDetectionTimer (env : LossEnv) (ts : Nat) : Except Err Conn :=
  if c.lossDetectionTimer = uint64Max then .ok c
  else if c.lossTimeAndSpace.1 ≠ uint64Max then do
    let c ← c.detectLostPkt env c.lossTimeAndSpace.2 ts
    .ok { c with lossDetectionTimer := env.lossDetectionTimer }
  else .ok { c with ptoCount := c.ptoCount + 1, lossDetectionTimer := env.lossDetectionTimer }

/-- `conn_remove_retired_connection_id` -/
def removeRetiredConnectionId (pto ts : Nat) : Except Err Conn :=
  match c.scid.removeRetiredConnectionId pto ts with
  | .error stop => .error (.stop stop)
  | .ok scid => .ok { c with scid := scid, dcidtr := c.dcidtr.removeStaleRetiredDcid pto ts }

def retireStaleBoundDcid (timeout ts : Nat) : Except Err Conn :=
  if c.currentCidlen ≠ 0 then do
    let dcidtr ← c.dcidtr.retireStaleBoundDcid timeout ts
    .ok { c with dcidtr := dcidtr }
  else .ok c

/-- `conn_discard_early_key`, when its time has come. -/
def discardStaleEarlyKey (timeout ts : Nat) : Conn :=
  if c.server && c.early.ckm && tstampElapsed c.early.discardStartedTs timeout ts then
    { c with early := { c.early with ckm := false } }
  else c

/-- The timers that are cancelled without a condition. -/
def cancelExpiredTimers (ts : Nat) : Conn :=
  let c := c.cancelExpiredAckDelayTimer ts
  { c with keepAlive := c.keepAlive.cancelExpired ts, pacing := c.pacing.cancelExpired ts }

def cancelExpiredPvTimer (ts : Nat) : Conn :=
  { c with pv := c.pv.map (·.cancelExpiredTimer ts) }

def handleLossDetectionExpiry (env : LossEnv) (ts : Nat) : Except Err Conn :=
  if c.lossDetectionTimer ≤ ts then c.onLossDetectionTimer env ts else .ok c

def handshakeTimedOut (ts : Nat) : Bool :=
  !c.tlsHandshakeCompleted && tstampElapsed c.settings.initialTs c.settings.handshakeTimeout ts

/-- What `ngtcp2_conn_handle_expiry` does where the connection is not idle, one kind of timer after the other. -/
def handleTimers (env : LossEnv) (pto ts : Nat) : Except Err Conn := do
  let c ← (c.cancelExpiredTimers ts).removeLostPkt ts
  let c ← (c.cancelExpiredPvTimer ts).handlePmtudExpiry ts
  let c ← c.handleLossDetectionExpiry env ts
  let c ← c.retireStaleBoundDcid (3 * pto) ts
  let c ← c.removeRetiredConnectionId pto ts
  let c := c.discardStaleEarlyKey (3 * pto) ts
  if c.handshakeTimedOut ts then .error .handshakeTimeout else .ok c

/-- `ngtcp2_conn_handle_expiry` -/
def handleExpiry (env : LossEnv) (ts : Nat) : Except Err Conn :=
  if ts < c.lastTs then .error (.stop (.fault .assertion))
  else if c.ppePending then .error (.stop (.fault .assertion))
  else if c.getIdleExpiry ≤ ts then .error .idleClose
  else { c with lastTs := ts }.handleTimers env c.appPto ts

end Conn

end Zngtcp2.Timer
