import Zngtcp2.Timer.Model
import Zngtcp2.Rtb.LostTimes

namespace Zngtcp2.Timer

open Lib.Run

/-- What starts, restarts or stops a timer of a connection. -/
inductive Event
  | recvPkt (id : Conn.SpaceId) (activeAck : Bool) (pktTs : Nat)
  | commitAck (id : Conn.SpaceId)
  | rtb (id : Conn.SpaceId) (op : RtbTx.Op)
  | discardPktns (id : Conn.SpaceId)
  | setLossDetectionTimer (id : Conn.SpaceId) (lossTime ptoCount lossDetectionTimer : Nat)
  | setRtt (rtt : Rtt)
  | setRemote (remote : RemoteParams)
  | completeTlsHandshake
  | completeHandshake
  | startPv
  | addPvEntry (expiry : Nat)
  | stopPv
  | startPmtud (maxUdpPayloadSize hardMaxUdpPayloadSize : Nat) (txPktNum : Int) (probes : List UInt16)
  | pmtud (e : PmtudRun.Event)
  | stopPmtud
  | scid (input : ScidPool.Input)
  | setCurrentCidlen (cidlen : Nat)
  | bindDcid (seq : Nat)
  | popBoundDcid (i : Nat)
  | retireActiveDcid (seq : Nat)
  | retireDcidPriorTo (seq : Nat)
  | untrackRetiredSeq (seq : Nat)
  | installEarlyKey
  | recvShortPkt
  | discardEarlyKey
  | updateKeepAlive
  | setKeepAliveTimeout (timeout : Nat)
  | restartIdleTimer
  | pktTxAllowed
  | updatePktTxTime (wait : Nat)
  | resetPacing
  | setPpePending (pending : Bool)
  | handleExpiry (env : Conn.LossEnv)

/-- An event, and the time that the application passes. -/
structure Call where
  ts : Nat
  event : Event

/-- A packet number space as `pktns_init` leaves it. -/
def Space.init (initialPktNum : Int) : Space :=
  ⟨.committed, .init initialPktNum 0, uint64Max⟩

namespace Conn

/-- The connection that `conn_new` makes. -/
def init (server : Bool) (settings : Local) (initialPktNum : Int) (currentCidlen : Nat) (scid : ScidPool.Pool) : Conn where
  lastTs := settings.initialTs
  server := server
  settings := settings
  remote := none
  tlsHandshakeCompleted := false
  handshakeCompleted := false
  rtt := ⟨settings.initialRtt, settings.initialRtt / 2⟩
  ptoCount := 0
  lossDetectionTimer := uint64Max
  inPktns := some (.init initialPktNum)
  hsPktns := some (.init initialPktNum)
  pktns := .init initialPktNum
  pv := none
  pmtud := none
  scid := scid
  currentCidlen := currentCidlen
  dcidtr := ⟨[], [], []⟩
  early := ⟨false, uint64Max⟩
  keepAlive := ⟨uint64Max, uint64Max, false⟩
  idleTs := settings.initialTs
  pacing := ⟨uint64Max, 0⟩
  ppePending := false

variable (c : Conn)

/-- Changes a packet number space that is there. -/
def onSpace (id : SpaceId) (f : Space → Space) : Conn :=
  match c.space id with
  | none => c
  | some s => c.setSpace id (f s)

def rtbStep (id : SpaceId) (op : RtbTx.Op) : Except Err Conn :=
  match c.space id with
  | none => .ok c
  | some s =>
      match s.rtb.step op with
      | .error stop => .error (.stop stop)
      | .ok rtb => .ok (c.setSpace id { s with rtb := rtb })

/-- `conn_discard_initial_state` and `conn_discard_handshake_state`; the other space is never discarded. -/
def discardPktns : SpaceId → Conn
  | .initial => { c with inPktns := none }
  | .handshake => { c with hsPktns := none }
  | .application => c

/-- The connection keeps no discovery that has finished. -/
def setPmtud (pmtud : Except Pmtud.Stop Pmtud) : Except Err Conn :=
  match pmtud with
  | .error stop => .error (.pmtud stop)
  | .ok pmtud => .ok { c with pmtud := if pmtud.finished then none else some pmtud }

/-- `conn_bind_dcid` for a path that has no connection ID. -/
def bindDcid (seq ts : Nat) : Except Err Conn :=
  if c.currentCidlen = 0 then .ok { c with dcidtr := c.dcidtr.bindZerolenDcid }
  else do
    let dcidtr ← c.dcidtr.bindDcid seq ts
    .ok { c with dcidtr := dcidtr }

/-- What an event at `ts` does, after the time has been recorded. -/
def apply (ts : Nat) : Event → Except Err Conn
  | .recvPkt id activeAck pktTs => .ok (c.onSpace id fun s => { s with acktr := s.acktr.add activeAck pktTs })
  | .commitAck id => .ok (c.onSpace id fun s => { s with acktr := .committed })
  | .rtb id op => c.rtbStep id op
  | .discardPktns id => .ok (c.discardPktns id)
  | .setLossDetectionTimer id lossTime ptoCount lossDetectionTimer =>
      .ok { c.onSpace id fun s => { s with lossTime := lossTime } with
        ptoCount := ptoCount, lossDetectionTimer := lossDetectionTimer }
  | .setRtt rtt => .ok { c with rtt := rtt }
  | .setRemote remote => .ok { c with remote := some remote }
  | .completeTlsHandshake => .ok { c with tlsHandshakeCompleted := true }
  | .completeHandshake => .ok { c with handshakeCompleted := true }
  | .startPv => .ok { c with pv := some ⟨[], false⟩ }
  | .addPvEntry expiry => .ok { c with pv := c.pv.map (·.addEntry expiry) }
  | .stopPv => .ok { c with pv := none }
  | .startPmtud maxUdpPayloadSize hardMaxUdpPayloadSize txPktNum probes =>
      if c.pmtud.isSome then .error (.stop (.fault .assertion))
      else c.setPmtud (Pmtud.new maxUdpPayloadSize hardMaxUdpPayloadSize txPktNum probes)
  | .pmtud e =>
      match c.pmtud with
      | none => .ok c
      | some pmtud => c.setPmtud ((PmtudRun.step ⟨pmtud, []⟩ e).map PmtudRun.pmtud)
  | .stopPmtud => .ok { c with pmtud := none }
  | .scid input =>
      match ScidPool.step c.scid input with
      | .error stop => .error (.stop stop)
      | .ok scid => .ok { c with scid := scid }
  | .setCurrentCidlen cidlen => .ok { c with currentCidlen := cidlen }
  | .bindDcid seq => c.bindDcid seq ts
  | .popBoundDcid i => .ok { c with dcidtr := { c.dcidtr with bound := removeDcidAt c.dcidtr.bound i } }
  | .retireActiveDcid seq => do
      let dcidtr ← c.dcidtr.retireActiveDcid seq ts
      .ok { c with dcidtr := dcidtr }
  | .retireDcidPriorTo seq => do
      let dcidtr ← c.dcidtr.retirePriorToLoop seq c.dcidtr.bound.length 0
      .ok { c with dcidtr := dcidtr }
  | .untrackRetiredSeq seq => .ok { c with dcidtr := { c.dcidtr with retireUnacked := c.dcidtr.retireUnacked.erase seq } }
  | .installEarlyKey =>
      if c.early.ckm then .error (.stop (.fault .assertion)) else .ok { c with early := { c.early with ckm := true } }
  | .recvShortPkt =>
      .ok { c with early :=
        if c.server && c.early.ckm && c.early.discardStartedTs = uint64Max then { c.early with discardStartedTs := ts }
        else c.early }
  | .discardEarlyKey => .ok { c with early := { c.early with ckm := false } }
  | .updateKeepAlive => .ok { c with keepAlive := c.keepAlive.update ts }
  | .setKeepAliveTimeout timeout => .ok { c with keepAlive := c.keepAlive.setTimeout timeout }
  | .restartIdleTimer => .ok { c with idleTs := ts }
  | .pktTxAllowed => .ok { c with pacing := c.pacing.pktTxAllowed ts }
  | .updatePktTxTime wait => .ok { c with pacing := c.pacing.updatePktTxTime wait ts }
  | .resetPacing => .ok { c with pacing := ⟨uint64Max, 0⟩ }
  | .setPpePending pending => .ok { c with ppePending := pending }
  | .handleExpiry env => c.handleExpiry env ts

def step (call : Call) : Except Err Conn :=
  if call.ts < c.lastTs then .error (.stop (.fault .assertion))
  else apply { c with lastTs := call.ts } call.ts call.event

/-- No time is the value that stands for none; the operations on a retransmission buffer use the present time and new
packet numbers; and the length of the peer's connection IDs is settled before another path gets one. -/
def Allowed (c : Conn) (call : Call) : Prop :=
  call.ts < uint64Max ∧
    match call.event with
    | .rtb id op => RtbTx.State.LossesAt call.ts op ∧ ∀ s ∈ c.space id, s.rtb.Allowed op
    | .setCurrentCidlen _ => c.dcidtr.bound = []
    | _ => True

instance decidableLossesAt (ts : Nat) (op : RtbTx.Op) : Decidable (RtbTx.State.LossesAt ts op) :=
  match op with
  | .recvAck _ loss | .detectLostPkt loss => inferInstanceAs (Decidable (loss.ts = ts))
  | .add .. | .reclaimOnPto .. | .removeExcessiveLostPkt .. | .removeExpiredLostPkt .. | .removeEarlyData
  | .resetCcState | .others .. => .isTrue trivial

instance decidableAllowed (c : Conn) (call : Call) : Decidable (c.Allowed call) :=
  match call with
  | ⟨ts, .rtb id op⟩ =>
      inferInstanceAs (Decidable (ts < uint64Max ∧ RtbTx.State.LossesAt ts op ∧ ∀ s ∈ c.space id, s.rtb.Allowed op))
  | ⟨ts, .setCurrentCidlen _⟩ => inferInstanceAs (Decidable (ts < uint64Max ∧ c.dcidtr.bound = []))
  | ⟨ts, .recvPkt ..⟩ | ⟨ts, .commitAck _⟩ | ⟨ts, .discardPktns _⟩ | ⟨ts, .setLossDetectionTimer ..⟩ | ⟨ts, .setRtt _⟩
  | ⟨ts, .setRemote _⟩ | ⟨ts, .completeTlsHandshake⟩ | ⟨ts, .completeHandshake⟩ | ⟨ts, .startPv⟩ | ⟨ts, .addPvEntry _⟩
  | ⟨ts, .stopPv⟩ | ⟨ts, .startPmtud ..⟩ | ⟨ts, .pmtud _⟩ | ⟨ts, .stopPmtud⟩ | ⟨ts, .scid _⟩ | ⟨ts, .bindDcid _⟩
  | ⟨ts, .popBoundDcid _⟩ | ⟨ts, .retireActiveDcid _⟩ | ⟨ts, .retireDcidPriorTo _⟩ | ⟨ts, .untrackRetiredSeq _⟩
  | ⟨ts, .installEarlyKey⟩ | ⟨ts, .recvShortPkt⟩ | ⟨ts, .discardEarlyKey⟩ | ⟨ts, .updateKeepAlive⟩
  | ⟨ts, .setKeepAliveTimeout _⟩ | ⟨ts, .restartIdleTimer⟩ | ⟨ts, .pktTxAllowed⟩ | ⟨ts, .updatePktTxTime _⟩
  | ⟨ts, .resetPacing⟩ | ⟨ts, .setPpePending _⟩ | ⟨ts, .handleExpiry _⟩ =>
      inferInstanceAs (Decidable (ts < uint64Max ∧ True))

end Conn

end Zngtcp2.Timer
