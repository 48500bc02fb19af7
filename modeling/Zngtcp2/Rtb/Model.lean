import Zngtcp2.Pkt.Hd
import Zngtcp2.Pktns.AckFrame
import Zngtcp2.Strm.Tx

namespace Zngtcp2.RtbTx

open Pkt (PktType)
open PktnsRx
open Strm (Stop)

/-- The flags that an entry has from the packet it was made for. -/
structure SentFlags where
  retransmittable : Bool
  ackEliciting : Bool
  ptoEliciting : Bool
  pmtudProbe : Bool
  skip : Bool
  deriving DecidableEq, Repr

structure Entry where
  pktNum : Int
  type : PktType
  ts : Nat
  lostTs : Nat
  pktlen : Nat
  sent : SentFlags
  ptoReclaimed : Bool
  lostRetransmitted : Bool
  deriving DecidableEq

/-- `rtb_entry_init` -/
def Entry.init (pktNum : Int) (type : PktType) (ts pktlen : Nat) (sent : SentFlags) : Entry :=
  ⟨pktNum, type, ts, uint64Max, pktlen, sent, false, false⟩

/-- The loss of a PMTUD probe or of a skipped packet number is not counted. -/
def Entry.ignored (e : Entry) : Bool :=
  e.sent.pmtudProbe || e.sent.skip

/-- The counters of a retransmission buffer, and `bytes_in_flight` of the connection. -/
structure Counters where
  numAckEliciting : Nat
  numRetransmittable : Nat
  numPtoEliciting : Nat
  numLostPkts : Nat
  numLostIgnorePkts : Nat
  ccBytesInFlight : Nat
  bytesInFlight : Nat
  deriving DecidableEq, Repr

/-- The entries are in the order of their keys, decreasing packet numbers. -/
structure Rtb where
  ents : List Entry
  largestAckedTxPktNum : Int
  ccPktNum : Int
  counters : Counters
  deriving DecidableEq

/-- `ngtcp2_rtb_init`; the other packet number spaces may have bytes in flight. -/
def Rtb.init (ccPktNum : Int) (bytesInFlight : Nat) : Rtb :=
  ⟨[], -1, ccPktNum, ⟨0, 0, 0, 0, 0, 0, bytesInFlight⟩⟩

/-- `--n`, which must not underflow. -/
def decrIf (b : Bool) (n : Nat) : Except Stop Nat :=
  if b then if n = 0 then .error (.fault .assertion) else .ok (n - 1) else .ok n

def incrIf (b : Bool) (n : Nat) : Nat :=
  if b then n + 1 else n

namespace Counters

variable (c : Counters)

/-- `rtb_on_add` -/
def onAdd (ccPktNum : Int) (e : Entry) : Except Stop Counters :=
  if ccPktNum ≤ e.pktNum then
    .ok { c with
      bytesInFlight := c.bytesInFlight + e.pktlen
      ccBytesInFlight := c.ccBytesInFlight + e.pktlen
      numAckEliciting := incrIf e.sent.ackEliciting c.numAckEliciting
      numRetransmittable := incrIf e.sent.retransmittable c.numRetransmittable
      numPtoEliciting := incrIf e.sent.ptoEliciting c.numPtoEliciting }
  else .error (.fault .assertion)

/-- The part of `rtb_on_remove` that takes the bytes of the packet out of flight. -/
def takeBytes (ccPktNum : Int) (e : Entry) : Except Stop (Counters × Nat) :=
  if ccPktNum ≤ e.pktNum then
    if c.bytesInFlight < e.pktlen ∨ c.ccBytesInFlight < e.pktlen then .error (.fault .assertion)
    else
      .ok ({ c with
        bytesInFlight := c.bytesInFlight - e.pktlen
        ccBytesInFlight := c.ccBytesInFlight - e.pktlen }, if e.sent.pmtudProbe then 0 else e.pktlen)
  else .ok (c, 0)

/-- `rtb_on_remove`: the counters, and the number of bytes that are reported lost. -/
def onRemove (ccPktNum : Int) (e : Entry) : Except Stop (Counters × Nat) :=
  if e.lostRetransmitted then do
    let numLostPkts ← decrIf true c.numLostPkts
    let numLostIgnorePkts ← decrIf e.ignored c.numLostIgnorePkts
    .ok ({ c with numLostPkts := numLostPkts, numLostIgnorePkts := numLostIgnorePkts }, 0)
  else do
    let numAckEliciting ← decrIf e.sent.ackEliciting c.numAckEliciting
    let numRetransmittable ← decrIf (e.sent.retransmittable && !e.ptoReclaimed) c.numRetransmittable
    let numPtoEliciting ← decrIf e.sent.ptoEliciting c.numPtoEliciting
    takeBytes { c with
      numAckEliciting := numAckEliciting
      numRetransmittable := numRetransmittable
      numPtoEliciting := numPtoEliciting } ccPktNum e

/-- `rtb_on_pkt_lost`; what it queues for retransmission is no part of the buffer. -/
def onPktLost (e : Entry) (ts : Nat) : Except Stop (Counters × Entry) :=
  if (e.ptoReclaimed || e.sent.retransmittable) ∧ (e.lostRetransmitted ∨ e.lostTs ≠ uint64Max) then
    .error (.fault .assertion)
  else
    .ok ({ c with
      numLostIgnorePkts := incrIf e.ignored c.numLostIgnorePkts
      numLostPkts := c.numLostPkts + 1 }, { e with lostRetransmitted := true, lostTs := ts })

end Counters

/-- `ngtcp2_ksl_insert` with the packet number as the key. -/
def kslInsert (e : Entry) : List Entry → Option (List Entry)
  | [] => some [e]
  | a :: as =>
      if e.pktNum < a.pktNum then (kslInsert e as).map (a :: ·)
      else if a.pktNum = e.pktNum then none
      else some (e :: a :: as)

/-- What detecting losses reads of the connection: the time, the round-trip times, and the limits
of the persistent congestion. -/
structure Loss where
  ts : Nat
  latestRtt : Nat
  smoothedRtt : Nat
  rttvar : Nat
  maxAckDelay : Nat
  startTs : Nat
  maxTxUdpPayloadSize : Nat
  application : Bool
  deriving DecidableEq, Repr

namespace Loss

/-- `NGTCP2_GRANULARITY` -/
def granularity : Nat :=
  1000000

/-- `compute_pkt_loss_delay` -/
def delay (l : Loss) : Nat :=
  max (max l.latestRtt l.smoothedRtt * 9 / 8) granularity

def congestionPeriod (l : Loss) : Nat :=
  (l.smoothedRtt + max (4 * l.rttvar) granularity + l.maxAckDelay) * 3

/-- `rtb_pkt_lost`; it also notes the time when the packet will be lost, for a timer. -/
def pktLost (l : Loss) (largestAckedTxPktNum : Int) (pktThres : Nat) (e : Entry) : Bool :=
  tstampElapsed (some e.ts) l.delay l.ts || e.pktNum + pktThres ≤ largestAckedTxPktNum

end Loss

/-- How far the run of consecutive lost packets reaches. -/
structure LostRun where
  latestTs : Nat
  oldestTs : Nat
  lastLostPktNum : Int
  deriving DecidableEq, Repr

namespace LostRun

def start (e : Entry) : LostRun :=
  ⟨e.ts, e.ts, e.pktNum + 1⟩

def next (run : LostRun) (l : Loss) (e : Entry) : LostRun :=
  if run.lastLostPktNum = e.pktNum + 1 ∧ l.startTs ≤ e.ts then
    { run with lastLostPktNum := e.pktNum, oldestTs := e.ts }
  else { run with lastLostPktNum := -1 }

/-- At an entry that is lost already: is there no need to look further? -/
def ends (run : LostRun) (l : Loss) : Bool :=
  !l.application || run.lastLostPktNum = -1 || l.congestionPeriod ≤ sub64 run.latestTs run.oldestTs

end LostRun

namespace Rtb

variable (r : Rtb)

/-- `ngtcp2_rtb_add` -/
def add (e : Entry) : Except Stop Rtb :=
  match kslInsert e r.ents with
  | none => .error (.failed .invalidArgument)
  | some ents => do
      let counters ← r.counters.onAdd r.ccPktNum e
      .ok { r with ents := ents, counters := counters }

/-- The loop that marks the entries lost, from the first lost one on. -/
def markLost (ccPktNum : Int) (l : Loss) :
    Counters → LostRun → Nat → List Entry → Except Stop (Counters × List Entry × Nat)
  | c, _, bytesLost, [] => .ok (c, [], bytesLost)
  | c, run, bytesLost, e :: es => do
      let run := run.next l e
      if e.lostRetransmitted then
        if run.ends l then .ok (c, e :: es, bytesLost)
        else do
          let (c, es, bytesLost) ← markLost ccPktNum l c run bytesLost es
          .ok (c, e :: es, bytesLost)
      else do
        let (c, n) ← c.onRemove ccPktNum e
        let (c, e) ← c.onPktLost e l.ts
        let (c, es, bytesLost) ← markLost ccPktNum l c run (bytesLost + n) es
        .ok (c, e :: es, bytesLost)

/-- The entries in front of the first lost one, and the others. -/
def splitLost (lost : Entry → Bool) : List Entry → List Entry × List Entry
  | [] => ([], [])
  | e :: es =>
      if e.lostRetransmitted then (e :: es, [])
      else if lost e then ([], e :: es)
      else
        let s := splitLost lost es
        (e :: s.1, s.2)

def detectMark (l : Loss) (before : List Entry) : List Entry → Except Stop (Rtb × Nat)
  | [] => .ok ({ r with ents := before }, 0)
  | e :: es => do
      let (c, es, bytesLost) ← markLost r.ccPktNum l r.counters (.start e) 0 (e :: es)
      .ok ({ r with ents := before ++ es, counters := c }, bytesLost)

/-- The loops of `ngtcp2_rtb_remove_excessive_lost_pkt` and `ngtcp2_rtb_remove_expired_lost_pkt`, on
the entries from the oldest one on. -/
def dropStale (keep : Nat) (fresh : Entry → Bool) : Counters → List Entry → Except Stop (Counters × List Entry)
  | c, [] => if c.numLostPkts ≤ keep then .ok (c, []) else .error (.fault .assertion)
  | c, e :: es =>
      if c.numLostPkts ≤ keep then .ok (c, e :: es)
      else if !e.lostRetransmitted then .error (.fault .assertion)
      else if fresh e then .ok (c, e :: es)
      else do
        let numLostIgnorePkts ← decrIf e.ignored c.numLostIgnorePkts
        dropStale keep fresh { c with numLostPkts := c.numLostPkts - 1, numLostIgnorePkts := numLostIgnorePkts } es

def removeStale (keep : Nat) (fresh : Entry → Bool) : Except Stop Rtb := do
  let (c, es) ← dropStale keep fresh r.counters r.ents.reverse
  .ok { r with counters := c, ents := es.reverse }

/-- `ngtcp2_rtb_remove_excessive_lost_pkt` -/
def removeExcessiveLostPkt (n : Nat) : Except Stop Rtb :=
  r.removeStale n fun _ => false

/-- `ngtcp2_rtb_remove_expired_lost_pkt` -/
def removeExpiredLostPkt (timeout ts : Nat) : Except Stop Rtb :=
  r.removeStale 0 fun e => sub64 ts e.lostTs < timeout

def pktThres (l : Loss) : Nat :=
  min (max (r.counters.ccBytesInFlight / l.maxTxUdpPayloadSize / 2) 3) 256

/-- `rtb_detect_lost_pkt`: the buffer, and the number of lost bytes that the congestion controller
is told of. -/
def detectLostPkt (l : Loss) : Except Stop (Rtb × Nat) := do
  let pktThres := r.pktThres l
  let newer := r.ents.takeWhile (r.largestAckedTxPktNum < ·.pktNum)
  let s := splitLost (l.pktLost r.largestAckedTxPktNum pktThres) (r.ents.dropWhile (r.largestAckedTxPktNum < ·.pktNum))
  let (r, bytesLost) ← r.detectMark l (newer ++ s.1) s.2
  let r ← r.removeExcessiveLostPkt pktThres
  .ok (r, bytesLost)

/-- The entries at the front that are acknowledged down to `minAck`. -/
def removeAcked (ccPktNum : Int) (asserted : Entry → Bool) (minAck : Int) :
    Counters → List Entry → Except Stop (Counters × List Entry × List Entry)
  | c, [] => .ok (c, [], [])
  | c, e :: es =>
      if !asserted e then .error (.fault .assertion)
      else if e.pktNum < minAck then .ok (c, [], e :: es)
      else if e.sent.skip then .error (.failed .proto)
      else do
        let (c, _) ← c.onRemove ccPktNum e
        let (c, acked, es) ← removeAcked ccPktNum asserted minAck c es
        .ok (c, e :: acked, es)

/-- One range of an ACK frame: the buffer, and the entries taken out. -/
def ackRange (asserted : Entry → Bool) (largestAck minAck : Int) : Except Stop (Rtb × List Entry) := do
  let (c, acked, older) ←
    removeAcked r.ccPktNum asserted minAck r.counters (r.ents.dropWhile (largestAck < ·.pktNum))
  .ok ({ r with ents := r.ents.takeWhile (largestAck < ·.pktNum) ++ older, counters := c }, acked)

/-- The further ranges of an ACK frame; the loop ends at one that has no entry at or behind it. -/
def ackRanges : Rtb → Int → List AckRange → Except Stop (Rtb × List Entry)
  | r, _, [] => .ok (r, [])
  | r, minAck, range :: ranges => do
      let largestAck := minAck - range.gap - 2
      if r.ents.dropWhile (largestAck < ·.pktNum) = [] then .ok (r, [])
      else do
        let (r, acked) ← r.ackRange (fun _ => true) largestAck (largestAck - range.len)
        let (r, acked') ← ackRanges r (largestAck - range.len) ranges
        .ok (r, acked ++ acked')

/-- `ngtcp2_rtb_recv_ack`: the buffer, and the number of newly acknowledged packets that count for
congestion control. -/
def recvAck (fr : AckFrame) (l : Loss) : Except Stop (Rtb × Nat) := do
  let largestAck : Int := fr.largestAck
  let r := { r with largestAckedTxPktNum := max r.largestAckedTxPktNum largestAck }
  if r.ents.dropWhile (largestAck < ·.pktNum) = [] then .ok (r, 0)
  else do
    let minAck := largestAck - fr.firstAckRange
    let (r, acked) ← r.ackRange (·.pktNum ≤ largestAck) largestAck minAck
    let (r, acked') ← ackRanges r minAck fr.ranges
    let numAcked := (acked ++ acked').countP (r.ccPktNum ≤ ·.pktNum)
    if numAcked = 0 then .ok (r, 0)
    else do
      let (r, _) ← r.detectLostPkt l
      .ok (r, numAcked)

/-- The loop of `ngtcp2_rtb_remove_early_data`. -/
def dropEarlyData (ccPktNum : Int) : Counters → List Entry → Except Stop (Counters × List Entry)
  | c, [] => .ok (c, [])
  | c, e :: es =>
      if e.type ≠ .zeroRtt then do
        let (c, es) ← dropEarlyData ccPktNum c es
        .ok (c, e :: es)
      else do
        let (c, _) ← c.onRemove ccPktNum e
        dropEarlyData ccPktNum c es

/-- `ngtcp2_rtb_remove_early_data` -/
def removeEarlyData : Except Stop Rtb := do
  let (c, ents) ← dropEarlyData r.ccPktNum r.counters r.ents
  .ok { r with counters := c, ents := ents }

/-- `ngtcp2_rtb_reset_cc_state`, with the `bytes_in_flight` that its caller resets. -/
def resetCcState (ccPktNum : Int) : Rtb :=
  { r with ccPktNum := ccPktNum, counters := { r.counters with ccBytesInFlight := 0, bytesInFlight := 0 } }

/-- The loop of `ngtcp2_rtb_reclaim_on_pto`, on the entries from the oldest one on. `reclaimed` is
the number of frames that `rtb_reclaim_frame` queues for an entry. -/
def reclaimLoop (reclaimed : Entry → Nat) : Nat → Counters → List Entry → Except Stop (Nat × Counters × List Entry)
  | numPkts, c, [] => .ok (numPkts, c, [])
  | numPkts, c, e :: es =>
      if numPkts = 0 then .ok (numPkts, c, e :: es)
      else if e.lostRetransmitted || e.ptoReclaimed || !e.sent.retransmittable then do
        let (numPkts, c, es) ← reclaimLoop reclaimed numPkts c es
        .ok (numPkts, c, e :: es)
      else do
        let numRetransmittable ← decrIf true c.numRetransmittable
        let numPtoEliciting ← decrIf e.sent.ptoEliciting c.numPtoEliciting
        let e' := { e with ptoReclaimed := true, sent := { e.sent with ptoEliciting := false } }
        let (numPkts, c, es) ← reclaimLoop reclaimed (if reclaimed e = 0 then numPkts else numPkts - 1)
          { c with numRetransmittable := numRetransmittable, numPtoEliciting := numPtoEliciting } es
        .ok (numPkts, c, e' :: es)

/-- `ngtcp2_rtb_reclaim_on_pto`: the buffer, and the number of packets reclaimed. -/
def reclaimOnPto (reclaimed : Entry → Nat) (numPkts : Nat) : Except Stop (Rtb × Nat) := do
  let (left, c, es) ← reclaimLoop reclaimed numPkts r.counters r.ents.reverse
  .ok ({ r with counters := c, ents := es.reverse }, numPkts - left)

end Rtb

end Zngtcp2.RtbTx
