import Zngtcp2.Err
import Zngtcp2.Pktns.AckRuns
import Zngtcp2.Rtb.AckRuns

namespace Zngtcp2.AckNet

open Lib.Run PktnsRx
open Pkt (PktType)
open RtbTx (Tracked Rtb Loss Op SentFlags recvAckProcess covers)
open Strm (Stop)

/-- `INT64_MAX` -/
def int64Max : Nat :=
  2 ^ 63 - 1

/-- `skip_pkt` of a packet number space. -/
structure SkipPkt where
  nextPktNum : Int
  exponent : Nat
  deriving DecidableEq, Repr

/-- `conn_update_skip_pkt`, with the random byte `r`. -/
def SkipPkt.update (p : SkipPkt) (lastPktNum : Int) (r : Fin 256) : Except Stop SkipPkt :=
  if p.nextPktNum = int64Max then .error (.fault .assertion)
  else if (maxPktNum - 3) / (r.val + 1) < 2 ^ p.exponent then .ok { p with nextPktNum := int64Max }
  else
    let gap : Nat := (r.val + 1) * 2 ^ p.exponent + 3
    if (maxPktNum : Int) - gap < lastPktNum then .ok ⟨int64Max, p.exponent + 1⟩
    else .ok ⟨lastPktNum + gap, p.exponent + 1⟩

/-- The packet numbers of the acknowledged packets, in the order in which they are processed. -/
def record (e : RtbTx.Entry) (acked : List Int) : Except Rv (List Int) :=
  .ok (acked ++ [e.pktNum])

/-- The sending side of a packet number space. Only the one of application data skips packet
numbers. `sent` records the packet numbers of the packets that went out. -/
structure Sender where
  space : Tracked (List Int)
  skip : Option SkipPkt
  sent : List Nat

/-- What a call that writes a packet comes to. A packet that elicits no acknowledgement is not kept
in the buffer. -/
inductive Written
  | nothing
  | untracked
  | tracked (type : PktType) (pktlen : Nat) (retransmittable ackEliciting ptoEliciting pmtudProbe : Bool)
  deriving DecidableEq

namespace Sender

variable (s : Sender)

/-- `last_pkt_num` -/
def lastPktNum : Int :=
  s.space.base.lastPktNum

/-- `conn_handle_skip_pkt` -/
def handleSkipPkt (ts : Nat) (r : Fin 256) : Except Stop Sender :=
  match s.skip with
  | none => .ok s
  | some p =>
      if s.lastPktNum + 1 ≠ p.nextPktNum then .ok s
      else do
        -- no rate sample is noted for it, but it is not read either, as the entry is never processed
        let space ← s.space.step record (.rtb (.add p.nextPktNum .oneRtt ts 0 ⟨false, false, false, false, true⟩))
        let p ← p.update space.base.lastPktNum r
        .ok { s with
          space := space
          skip := some p }

/-- The packet has the number behind `last_pkt_num`. -/
def send (ts : Nat) : Written → Except Stop Sender
  | .nothing => .ok s
  | .untracked =>
      let pktNum := s.lastPktNum + 1
      .ok { s with
        space := { s.space with base := { s.space.base with lastPktNum := pktNum } }
        sent := pktNum.toNat :: s.sent }
  | .tracked type pktlen retransmittable ackEliciting ptoEliciting pmtudProbe => do
      let pktNum := s.lastPktNum + 1
      let space ← s.space.step record
        (.rtb (.add pktNum type ts pktlen ⟨retransmittable, ackEliciting, ptoEliciting, pmtudProbe, false⟩))
      .ok { s with
        space := space
        sent := pktNum.toNat :: s.sent }

def writePkt (ts : Nat) (r : Fin 256) (w : Written) : Except Stop Sender := do
  let s ← s.handleSkipPkt ts r
  s.send ts w

/-- The last packet number after a call that writes a packet. -/
def nextPktNum : Int :=
  if s.skip.any (fun p => s.lastPktNum + 1 = p.nextPktNum) then s.lastPktNum + 2 else s.lastPktNum + 1

end Sender

/-- A packet number space of both endpoints, with the packets that the one sends and the ACK frames
that come back. A packet and a frame may arrive late, several times, or not at all. -/
structure Net where
  initialPktNum : Nat
  sender : Sender
  receiver : Pktns
  acks : List AckFrame

inductive Halt
  | invalidAck (e : Err)
  | stop (stop : Stop)
  deriving DecidableEq

inductive Event
  | write (ts : Nat) (r : Fin 256) (w : Written)
  /-- losses are detected, a PTO or the congestion state is handled -/
  | recovery (op : Op)
  /-- so many bytes are acknowledged in the other packet number spaces -/
  | delivered (bytes : Nat)
  | recvPkt (pktNum : PktNum) (ecn : Fin 4) (requireAck : Bool) (ts : Nat)
  | createAckFrame (oneRtt : Bool) (ts ackDelay ackDelayExponent : Nat)
  /-- the receiver's packet with an ACK frame was sent -/
  | commitAck (pktNum largestAck : Nat)
  /-- the receiver's packets are acknowledged -/
  | ackAcked (largestAck firstAckRange : Nat) (ranges : List AckRange)
  | recvAck (fr : AckFrame) (l : Loss)

namespace Net

variable (s : Net)

/-- `ngtcp2_pkt_validate_ack`, then `conn_recv_ack`. -/
def recvAck (fr : AckFrame) (l : Loss) : Except Halt Net :=
  match validateAck fr s.initialPktNum with
  | .error e => .error (.invalidAck e)
  | .ok () =>
      if s.sender.lastPktNum < fr.largestAck then .error (.stop (.failed .proto))
      else do
        let space ← (s.sender.space.step record (.rtb (.recvAck fr l))).mapError .stop
        .ok { s with sender := { s.sender with space := space } }

def step : Event → Except Halt Net
  | .write ts r w => do
      let sender ← (s.sender.writePkt ts r w).mapError .stop
      .ok { s with sender := sender }
  | .recovery op => do
      let space ← (s.sender.space.step record (.rtb op)).mapError .stop
      .ok { s with sender := { s.sender with space := space } }
  | .delivered bytes => do
      let space ← (s.sender.space.step record (.delivered bytes)).mapError .stop
      .ok { s with sender := { s.sender with space := space } }
  | .recvPkt pktNum ecn requireAck ts => do
      let receiver ← (PktnsRx.step s.receiver (.recv pktNum ecn requireAck ts)).mapError (.stop ∘ .fault)
      .ok { s with receiver := receiver }
  | .createAckFrame oneRtt ts ackDelay ackDelayExponent => do
      let (fr, acktr) ← (s.receiver.acktr.createAckFrame oneRtt ts ackDelay ackDelayExponent).mapError (.stop ∘ .fault)
      .ok { s with
        receiver := { s.receiver with acktr := acktr }
        acks := fr.toList ++ s.acks }
  | .commitAck pktNum largestAck => do
      let receiver ← (PktnsRx.step s.receiver (.commitAck pktNum largestAck)).mapError (.stop ∘ .fault)
      .ok { s with receiver := receiver }
  | .ackAcked largestAck firstAckRange ranges => do
      let receiver ← (PktnsRx.step s.receiver (.recvAck largestAck firstAckRange ranges)).mapError (.stop ∘ .fault)
      .ok { s with receiver := receiver }
  | .recvAck fr l => s.recvAck fr l

/-- The operations of the buffer that neither add nor acknowledge an entry. -/
def Recovery : Op → Prop
  | .add .. | .recvAck .. => False
  | _ => True

/-- Packet numbers are not exhausted, and what arrives was sent. -/
def Allowed : Event → Prop
  | .write .. => s.sender.nextPktNum ≤ maxPktNum
  | .recovery op => Recovery op
  | .recvPkt pktNum .. => pktNum.val ∈ s.sender.sent
  | .recvAck fr _ => fr ∈ s.acks
  | _ => True

instance decidableRecovery (op : Op) : Decidable (Recovery op) :=
  match op with
  | .add .. | .recvAck .. => .isFalse id
  | .detectLostPkt .. | .reclaimOnPto .. | .removeExcessiveLostPkt .. | .removeExpiredLostPkt ..
  | .removeEarlyData | .resetCcState | .others .. => .isTrue trivial

instance decidableAllowed (e : Event) : Decidable (s.Allowed e) :=
  match e with
  | .write .. => inferInstanceAs (Decidable (_ ≤ _))
  | .recovery op => decidableRecovery op
  | .recvPkt .. | .recvAck .. => inferInstanceAs (Decidable (_ ∈ _))
  | .delivered .. | .createAckFrame .. | .commitAck .. | .ackAcked .. => .isTrue trivial

/-- The space of application data skips packet numbers from the start, the other spaces never. -/
def init (initialPktNum : Nat) (skip : Option (Fin 256)) : Except Stop Net := do
  let skip ← skip.mapM fun r => SkipPkt.update ⟨0, 0⟩ (initialPktNum - 1) r
  .ok {
    initialPktNum := initialPktNum
    sender := {
      space := {
        base := ⟨.init initialPktNum 0, initialPktNum - 1⟩
        rst := .init
        conn := [] }
      skip := skip
      sent := [] }
    receiver := .new
    acks := [] }

end Net

end Zngtcp2.AckNet
