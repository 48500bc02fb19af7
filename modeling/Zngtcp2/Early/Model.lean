import Zngtcp2.Rtb.Runs
import Zngtcp2.Tx.Stream

namespace Zngtcp2.EarlyData

open Strm StreamTx
open RtbTx (SentFlags)

/-- What a client with 0-RTT packets reads of its transport parameters and settings, and of the
remembered transport parameters of the server. -/
structure Params where
  initialMaxData : Nat
  initialMaxStreamsBidi : Nat
  initialMaxStreamsUni : Nat
  initialMaxStreamDataBidiLocal : Nat
  maxWindow : Nat
  maxStreamWindow : Nat
  remoteMaxData : Nat
  remoteMaxStreamDataBidiRemote : Nat
  remoteMaxStreamDataUni : Nat
  remoteMaxStreamsBidi : Nat
  remoteMaxStreamsUni : Nat
  /-- `ack_datagram` or `lost_datagram` is set -/
  datagramCallbacks : Bool
  deriving DecidableEq, Repr

/-- A stream that the client opened; nothing was received on it. -/
structure EarlyStrm where
  tx : TxStrm
  txMaxOffset : Nat
  txLastBlockedOffset : Nat
  rxMaxOffset : Nat
  rxUnsentMaxOffset : Nat
  rxWindow : Nat
  lastMaxStreamDataTs : Nat
  shutRd : Bool
  stopSending : Bool
  sendResetStream : Bool
  sendStopSending : Bool
  deriving DecidableEq, Repr

/-- `ngtcp2_strm_init` -/
def EarlyStrm.init (maxRxOffset maxTxOffset : Nat) (shutRd : Bool) : EarlyStrm :=
  ⟨.new .stream, maxTxOffset, uint64Max, maxRxOffset, maxRxOffset, maxRxOffset, uint64Max, shutRd, false, false, false⟩

def EarlyStrm.shouldSendMaxStreamData (s : EarlyStrm) : Bool :=
  s.rxWindow < 4 * (s.rxUnsentMaxOffset - s.rxMaxOffset)

/-- `strm_should_send_stream_data_blocked` -/
def EarlyStrm.shouldSendStreamDataBlocked (s : EarlyStrm) : Bool :=
  s.tx.offset = s.txMaxOffset && s.txLastBlockedOffset ≠ s.txMaxOffset

/-- The frames that can be in `pktns->tx.frq` between two packets. -/
inductive Control
  | resetStream (sid : Nat)
  | stopSending (sid : Nat)
  | streamDataBlocked (sid offset : Nat)
  | maxStreamData (sid maxStreamData : Nat)
  | maxStreams (bidi : Bool) (maxStreams : Nat)
  | maxData (maxData : Nat)
  | dataBlocked (offset : Nat)
  deriving DecidableEq, Repr

inductive Frame
  | control (fr : Control)
  | stream (sid : Nat) (fr : TxFrame)
  | datagram
  deriving DecidableEq, Repr

/-- `remote.bidi` or `remote.uni`: the limit of streams that was announced, and the one to be. -/
structure StreamLimit where
  maxStreams : Nat
  unsentMaxStreams : Nat
  deriving DecidableEq, Repr

/-- The fields of a client that 0-RTT packets can change. `strmq` are the streams in the queue, `frq`
is that of the packet number space of the application, and `frames` are the frames that the entries
of its retransmission buffer have, by the packet number. -/
structure Conn where
  params : Params
  strms : Nat → Option EarlyStrm
  strmq : List Nat
  txOffset : Nat
  lastBlockedOffset : Nat
  rxMaxOffset : Nat
  rxUnsentMaxOffset : Nat
  rxWindow : Nat
  lastMaxDataTs : Nat
  remoteBidi : StreamLimit
  remoteUni : StreamLimit
  nextBidi : Nat
  nextUni : Nat
  frq : List Control
  rtb : RtbTx.State
  frames : Int → List Frame

/-- A client that has its parameters; `bytesInFlight` bytes of Initial packets are in flight. -/
def Conn.new (p : Params) (bytesInFlight : Nat) : Conn where
  params := p
  strms := fun _ => none
  strmq := []
  txOffset := 0
  lastBlockedOffset := uint64Max
  rxMaxOffset := p.initialMaxData
  rxUnsentMaxOffset := p.initialMaxData
  rxWindow := p.initialMaxData
  lastMaxDataTs := uint64Max
  remoteBidi := ⟨p.initialMaxStreamsBidi, p.initialMaxStreamsBidi⟩
  remoteUni := ⟨p.initialMaxStreamsUni, p.initialMaxStreamsUni⟩
  nextBidi := 0
  nextUni := 2
  frq := []
  rtb := .init 0 bytesInFlight
  frames := fun _ => []

/-- The delta by which a window grows when its limit is announced, and the window. -/
def tuneWindow (maxWindow window last ts smoothedRtt unsent : Nat) : Nat × Nat :=
  if maxWindow ≠ 0 ∧ last ≠ uint64Max ∧ sub64 ts last < 2 * smoothedRtt ∧ window < maxWindow then
    let target := min (2 * window) maxWindow
    (if maxVarint < unsent + (target - window) then maxVarint - unsent else target - window, target)
  else (0, window)

/-- `handle_max_remote_streams_extension` -/
def StreamLimit.extend (l : StreamLimit) (n : Nat) : StreamLimit :=
  { l with unsentMaxStreams := if 2 ^ 60 < n ∨ 2 ^ 60 - n < l.unsentMaxStreams then 2 ^ 60 else l.unsentMaxStreams + n }

namespace Conn

variable (c : Conn)

def set (sid : Nat) (s : EarlyStrm) : Conn :=
  { c with strms := Function.update c.strms sid (some s) }

/-- `ngtcp2_conn_tx_strmq_push`, unless the stream is in the queue. -/
def enqueue (sid : Nat) : Conn :=
  { c with strmq := if sid ∈ c.strmq then c.strmq else sid :: c.strmq }

def dequeue (sid : Nat) : Conn :=
  { c with strmq := c.strmq.filter (· ≠ sid) }

/-- `ngtcp2_conn_open_bidi_stream` -/
def openBidiStream : Conn :=
  if c.params.remoteMaxStreamsBidi < c.nextBidi / 4 + 1 then c
  else
    { c.set c.nextBidi (.init c.params.initialMaxStreamDataBidiLocal c.params.remoteMaxStreamDataBidiRemote false) with
      nextBidi := c.nextBidi + 4 }

/-- `ngtcp2_conn_open_uni_stream` -/
def openUniStream : Conn :=
  if c.params.remoteMaxStreamsUni < c.nextUni / 4 + 1 then c
  else { c.set c.nextUni (.init 0 c.params.remoteMaxStreamDataUni true) with nextUni := c.nextUni + 4 }

/-- `conn_shutdown_stream_write` -/
def shutdownStreamWrite (sid : Nat) : Conn :=
  match c.strms sid with
  | none => c
  | some s =>
      if s.tx.resetStream || allTxDataFinAcked s.tx then c
      else (c.set sid { s with tx := StreamTx.shutdownStreamWrite s.tx, sendResetStream := true }).enqueue sid

/-- `conn_shutdown_stream_read`; there is no data that was received and not passed on. -/
def shutdownStreamRead (sid : Nat) : Conn :=
  match c.strms sid with
  | none => c
  | some s =>
      if s.stopSending || s.shutRd then c
      else (c.set sid { s with stopSending := true, sendStopSending := true }).enqueue sid

/-- `conn_extend_max_stream_offset` -/
def extendMaxStreamOffset (sid datalen : Nat) : Conn :=
  match c.strms sid with
  | none => c
  | some s =>
      let unsent := if maxVarint < datalen ∨ maxVarint - datalen < s.rxUnsentMaxOffset then maxVarint
        else s.rxUnsentMaxOffset + datalen
      let s := { s with rxUnsentMaxOffset := unsent }
      if !(s.shutRd || s.stopSending) && s.shouldSendMaxStreamData then (c.set sid s).enqueue sid else c.set sid s

/-- `ngtcp2_conn_extend_max_offset` -/
def extendMaxOffset (datalen : Nat) : Conn :=
  { c with
    rxUnsentMaxOffset := if maxVarint < datalen ∨ maxVarint - datalen < c.rxUnsentMaxOffset then maxVarint
      else c.rxUnsentMaxOffset + datalen }

def extendMaxStreamsBidi (n : Nat) : Conn :=
  { c with remoteBidi := c.remoteBidi.extend n }

def extendMaxStreamsUni (n : Nat) : Conn :=
  { c with remoteUni := c.remoteUni.extend n }

/-- `conn_enforce_flow_control` -/
def enforceFlowControl (s : EarlyStrm) (len : Nat) : Nat :=
  min len (min (sub64 s.txMaxOffset s.tx.offset) (sub64 c.params.remoteMaxData c.txOffset))

/-- `ngtcp2_conn_submit_stream_buf` -/
def submitStreamBuf (sid : Nat) (data : List UInt8) (fin : Bool) : Except Stop Conn :=
  match c.strms sid with
  | none => .ok c
  | some s =>
      let n := c.enforceFlowControl s data.length
      let fin := fin && decide (n = data.length)
      if s.tx.shutWr ∨ (n = 0 ∧ !fin) ∨ maxVarint < s.tx.offset + n ∨ maxVarint < c.txOffset + n then .ok c
      else do
        let queue ← streamfrqPush s.tx.queue (newFrame s.tx (data.take n) fin)
        .ok { (c.set sid { s with tx := { accept s.tx n fin with queue := queue } }).enqueue sid with txOffset := c.txOffset + n }

/-- `conn_should_send_max_data` -/
def shouldSendMaxData : Bool :=
  c.rxWindow < 4 * (c.rxUnsentMaxOffset - c.rxMaxOffset)

/-- The part of `conn_write_pkt` that queues a MAX_DATA frame. -/
def queueMaxData (ts smoothedRtt : Nat) : Conn :=
  if c.shouldSendMaxData then
    let (delta, window) := tuneWindow c.params.maxWindow c.rxWindow c.lastMaxDataTs ts smoothedRtt c.rxUnsentMaxOffset
    let maxData := c.rxUnsentMaxOffset + delta
    { c with
      rxWindow := window
      lastMaxDataTs := ts
      frq := .maxData maxData :: c.frq
      rxMaxOffset := maxData
      rxUnsentMaxOffset := maxData }
  else c

/-- The checks that `conn_write_pkt` makes of a frame of `pktns->tx.frq`: it is deleted unwritten. -/
def obsolete : Control → Bool
  | .resetStream sid => (c.strms sid).all fun s => allTxDataFinAcked s.tx
  | .stopSending sid => (c.strms sid).all fun s => s.shutRd
  | .maxStreams bidi n => n < (if bidi then c.remoteBidi else c.remoteUni).maxStreams
  | .maxStreamData sid n => (c.strms sid).all fun s => n ≠ s.rxMaxOffset || s.shutRd || s.stopSending
  | .maxData n => n < c.rxMaxOffset
  | .streamDataBlocked sid n => (c.strms sid).all fun s => n ≠ s.txMaxOffset || s.tx.shutWr
  | .dataBlocked n => n ≠ c.params.remoteMaxData

/-- `conn_should_send_data_blocked` -/
def shouldSendDataBlocked : Bool :=
  c.txOffset = c.params.remoteMaxData && c.lastBlockedOffset ≠ c.params.remoteMaxData

end Conn

/-- A 0-RTT packet under construction: the connection, the frames written so far, and for each frame
to come whether there is room for it. While there are frames in `frq`, the end of the frame chain is
not reached. -/
structure Pkt where
  conn : Conn
  written : List Frame
  room : List Bool

namespace Pkt

variable (p : Pkt)

def fits : Bool :=
  p.room.head?.getD false

/-- A frame that is at the end of the queue already is written, if there is room. -/
def append (fr : Control) : Pkt :=
  if p.fits then { p with written := p.written ++ [.control fr], room := p.room.tail }
  else { p with conn := { p.conn with frq := [fr] }, room := p.room.tail }

/-- The loop over `pktns->tx.frq`. -/
def writeFrq (p : Pkt) : List Control → Pkt
  | [] => { p with conn := { p.conn with frq := [] } }
  | fr :: frs =>
      if p.conn.obsolete fr then writeFrq p frs
      else if p.fits then writeFrq { p with written := p.written ++ [.control fr], room := p.room.tail } frs
      else { p with conn := { p.conn with frq := fr :: frs }, room := p.room.tail }

/-- A control frame of a stream in the queue, if it is due. -/
def sendDue (sid : Nat) (due : EarlyStrm → Bool) (mark : EarlyStrm → EarlyStrm) (fr : EarlyStrm → Control) : Pkt :=
  match p.conn.strms sid with
  | none => p
  | some s =>
      if p.conn.frq = [] ∧ due s then { p with conn := p.conn.set sid (mark s) }.append (fr (mark s)) else p

def sendResetStream (sid : Nat) : Pkt :=
  p.sendDue sid (fun s => s.sendResetStream) (fun s => { s with sendResetStream := false }) fun _ => .resetStream sid

/-- STOP_SENDING is not written any more when the receiving side was shut in the meantime. -/
def sendStopSending (sid : Nat) : Pkt :=
  match p.conn.strms sid with
  | none => p
  | some s =>
      if p.conn.frq = [] ∧ s.sendStopSending ∧ s.shutRd then
        { p with conn := p.conn.set sid { s with sendStopSending := false } }
      else
        p.sendDue sid (fun s => s.sendStopSending) (fun s => { s with sendStopSending := false }) fun _ => .stopSending sid

def sendStreamDataBlocked (sid : Nat) : Pkt :=
  p.sendDue sid (fun s => !s.tx.shutWr && s.shouldSendStreamDataBlocked)
    (fun s => { s with txLastBlockedOffset := s.txMaxOffset }) fun s => .streamDataBlocked sid s.txMaxOffset

/-- The stream after its limit is announced. -/
def announce (maxStreamWindow ts smoothedRtt : Nat) (s : EarlyStrm) : EarlyStrm :=
  let (delta, window) :=
    tuneWindow maxStreamWindow s.rxWindow s.lastMaxStreamDataTs ts smoothedRtt s.rxUnsentMaxOffset
  { s with
    rxWindow := window
    lastMaxStreamDataTs := ts
    rxMaxOffset := s.rxUnsentMaxOffset + delta
    rxUnsentMaxOffset := s.rxUnsentMaxOffset + delta }

def sendMaxStreamData (sid ts smoothedRtt : Nat) : Pkt :=
  p.sendDue sid (fun s => !(s.shutRd || s.stopSending) && s.shouldSendMaxStreamData)
    (announce p.conn.params.maxStreamWindow ts smoothedRtt) fun s => .maxStreamData sid s.rxMaxOffset

/-- The data that is queued for the stream; `left` bytes of it fit, if a STREAM frame does. -/
def sendQueued (sid : Nat) (left : Option Nat) : Except Stop Pkt :=
  match p.conn.strms sid with
  | none => .ok p
  | some s =>
      if p.conn.frq ≠ [] then .ok p
      else if s.tx.queue = [] then .ok { p with conn := p.conn.dequeue sid }
      else do
        match ← s.tx.unackedOffset s.tx.queue, left with
        | none, _ => .ok { p with conn := (p.conn.set sid { s with tx := { s.tx with queue := [] } }).dequeue sid }
        | some _, none => .ok p
        | some _, some left => do
            let (res, queue) ← s.tx.streamfrqPop left
            let conn := p.conn.set sid { s with tx := { s.tx with queue := queue } }
            .ok { p with
              conn := if res.isSome && queue.isEmpty then conn.dequeue sid else conn
              written := p.written ++ (res.map (Frame.stream sid)).toList }

/-- One round of the loop over `conn->tx.strmq`, for the stream at its top. -/
def sendStrm (ts smoothedRtt : Nat) (sid : Nat) (left : Option Nat) : Except Stop Pkt :=
  if sid ∈ p.conn.strmq ∧ p.conn.frq = [] then
    ((((p.sendResetStream sid).sendStopSending sid).sendStreamDataBlocked sid).sendMaxStreamData
      sid ts smoothedRtt).sendQueued sid left
  else .ok p

def sendStrms (ts smoothedRtt : Nat) : Pkt → List (Nat × Option Nat) → Except Stop Pkt
  | p, [] => .ok p
  | p, (sid, left) :: rounds => do
      let p ← p.sendStrm ts smoothedRtt sid left
      sendStrms ts smoothedRtt p rounds

def sendMaxStreamsBidi : Pkt :=
  let l := p.conn.remoteBidi
  if p.conn.frq = [] ∧ l.maxStreams < l.unsentMaxStreams then
    { p with conn := { p.conn with remoteBidi := ⟨l.unsentMaxStreams, l.unsentMaxStreams⟩ } }.append
      (.maxStreams true l.unsentMaxStreams)
  else p

def sendMaxStreamsUni : Pkt :=
  let l := p.conn.remoteUni
  if p.conn.frq = [] ∧ l.maxStreams < l.unsentMaxStreams then
    { p with conn := { p.conn with remoteUni := ⟨l.unsentMaxStreams, l.unsentMaxStreams⟩ } }.append
      (.maxStreams false l.unsentMaxStreams)
  else p

/-- DATA_BLOCKED, which is dropped if there is no room for it. -/
def sendDataBlocked : Pkt :=
  if p.conn.shouldSendDataBlocked then
    if p.fits then
      { conn := { p.conn with lastBlockedOffset := p.conn.params.remoteMaxData }
        written := p.written ++ [.control (.dataBlocked p.conn.txOffset)]
        room := p.room.tail }
    else { p with room := p.room.tail }
  else p

/-- STREAM_DATA_BLOCKED after new data of the stream; if there is no room, the stream is queued. -/
def sendBlocked (sid : Nat) (s : EarlyStrm) : Pkt :=
  if s.shouldSendStreamDataBlocked then
    if p.fits then
      { conn := p.conn.set sid { s with txLastBlockedOffset := s.txMaxOffset }
        written := p.written ++ [.control (.streamDataBlocked sid s.txMaxOffset)]
        room := p.room.tail }
    else { p with conn := p.conn.enqueue sid, room := p.room.tail }
  else p

/-- What `conn_write_stream_core` does not pass on to `conn_write_pkt`. -/
def refuses (s : EarlyStrm) (datalen : Nat) (fin : Bool) : Bool :=
  s.tx.shutWr || (decide (datalen = 0) && !fin && s.tx.anySent) || decide (maxVarint < s.tx.offset + datalen) ||
    decide (maxVarint < p.conn.txOffset + datalen)

/-- The STREAM frame with the first `w` bytes of the data. -/
def acceptStream (sid : Nat) (s : EarlyStrm) (data : List UInt8) (fin : Bool) (w : Nat) : Pkt :=
  { p with
    conn := { p.conn.set sid { s with tx := accept s.tx w fin } with txOffset := p.conn.txOffset + w }
    written := p.written ++ [.stream sid (newFrame s.tx (data.take w) fin)] }

/-- New data for a stream; `left` bytes of it fit, if a STREAM frame does. -/
def sendStream (sid : Nat) (data : List UInt8) (fin : Bool) (left : Option Nat) : Pkt :=
  match p.conn.strms sid with
  | none => p
  | some s =>
      let n := p.conn.enforceFlowControl s data.length
      let w := min (left.getD 0) n
      if p.refuses s data.length fin ∨ p.conn.frq ≠ [] then p
      else if n = 0 ∧ data ≠ [] then p.sendDataBlocked.sendBlocked sid s
      else if p.conn.strmq = [] ∧ left.isSome ∧ (w = n ∨ 256 ≤ w) ∧ (w ≠ 0 ∨ data = []) then
        let fin := fin && decide (w = data.length)
        let p := p.acceptStream sid s data fin w
        if (accept s.tx w fin).shutWr then p else p.sendDataBlocked.sendBlocked sid { s with tx := accept s.tx w fin }
      else p

def sendDatagram : Pkt :=
  if p.conn.frq = [] ∧ p.fits then { p with written := p.written ++ [.datagram], room := p.room.tail }
  else { p with room := p.room.tail }

end Pkt

inductive Msg
  | stream (sid : Nat) (data : List UInt8) (fin : Bool) (left : Option Nat)
  | datagram
  deriving DecidableEq, Repr

/-- What a call writing a 0-RTT packet depends on besides the connection: the time, the round-trip
time, whether a packet number is skipped, which frames find room, the streams in the order in which
the queue has them, the messages, whether the packet is padded and has a PING frame, and its length. -/
structure Write where
  ts : Nat
  smoothedRtt : Nat
  skip : Bool
  room : List Bool
  rounds : List (Nat × Option Nat)
  msgs : List Msg
  padded : Bool
  ping : Bool
  pktlen : Nat
  deriving DecidableEq, Repr

namespace Pkt

def sendMsg (p : Pkt) : Msg → Pkt
  | .stream sid data fin left => p.sendStream sid data fin left
  | .datagram => p.sendDatagram

/-- The flags of the entry for the packet. -/
def sentFlags (p : Pkt) (ping : Bool) : SentFlags where
  retransmittable := p.written.any (· ≠ .datagram)
  ackEliciting := !p.written.isEmpty || ping
  ptoEliciting := !p.written.isEmpty || ping
  pmtudProbe := false
  skip := false

/-- The frames of the packet are entered into the retransmission buffer. -/
def finish (p : Pkt) (w : Write) : Except Stop Conn :=
  if p.written = [] ∧ !w.padded then .ok p.conn
  else do
    let pktNum := p.conn.rtb.lastPktNum + 1
    let rtb ← p.conn.rtb.step (.add pktNum .zeroRtt w.ts w.pktlen (p.sentFlags w.ping))
    let frames := if p.conn.params.datagramCallbacks then p.written else p.written.filter (· ≠ .datagram)
    .ok { p.conn with rtb := rtb, frames := Function.update p.conn.frames pktNum frames }

end Pkt

namespace Conn

variable (c : Conn)

/-- `conn_handle_skip_pkt` -/
def handleSkipPkt (skip : Bool) (ts : Nat) : Except Stop Conn :=
  if skip then do
    let rtb ← c.rtb.step (.add (c.rtb.lastPktNum + 1) .oneRtt ts 0 ⟨false, false, false, false, true⟩)
    .ok { c with rtb := rtb, frames := Function.update c.frames (c.rtb.lastPktNum + 1) [] }
  else .ok c

/-- `conn_write_pkt` for a 0-RTT packet. -/
def writePkt (w : Write) : Except Stop Conn := do
  let c ← (c.queueMaxData w.ts w.smoothedRtt).handleSkipPkt w.skip w.ts
  let p := Pkt.writeFrq ⟨c, [], w.room⟩ c.frq
  let p ← p.sendStrms w.ts w.smoothedRtt w.rounds
  (w.msgs.foldl Pkt.sendMsg p.sendMaxStreamsBidi.sendMaxStreamsUni).finish w

/-- `rtb_reclaim_frame_on_retry`: the connection, and the frames for the front of `pktns->tx.frq`. -/
def reclaimFrameOnRetry : Conn → List Frame → Except Stop (Conn × List Control)
  | c, [] => .ok (c, [])
  | c, .datagram :: frs => reclaimFrameOnRetry c frs
  | c, .control fr :: frs => do
      let (c, ctl) ← reclaimFrameOnRetry c frs
      .ok (c, fr :: ctl)
  | c, .stream sid fr :: frs =>
      match c.strms sid with
      | none => reclaimFrameOnRetry c frs
      | some s => do
          let queue ← streamfrqPush s.tx.queue fr
          reclaimFrameOnRetry ((c.set sid { s with tx := { s.tx with queue := queue } }).enqueue sid) frs

def setRtb (rtb : RtbTx.Rtb) : Conn :=
  { c with rtb := { c.rtb with rtb := rtb } }

/-- The loop of `ngtcp2_rtb_reclaim_on_retry`; its assertions hold after an entry is removed. -/
def reclaimOnRetry : Conn → List RtbTx.Entry → Except Stop Conn
  | c, [] => .ok (c.setRtb { c.rtb.rtb with ents := [] })
  | c, e :: es => do
      let (counters, _) ← c.rtb.rtb.counters.onRemove c.rtb.rtb.ccPktNum e
      let c := c.setRtb { c.rtb.rtb with ents := es, counters := counters }
      if e.lostRetransmitted ∨ counters.numLostPkts ≠ 0 ∨ counters.numLostIgnorePkts ≠ 0 ∨ e.sent.pmtudProbe then
        .error (.fault .assertion)
      else if e.ptoReclaimed || !e.sent.retransmittable then reclaimOnRetry c es
      else do
        let (c, ctl) ← c.reclaimFrameOnRetry (c.frames e.pktNum)
        reclaimOnRetry { c with frq := ctl ++ c.frq } es

/-- What `conn_on_retry` does to the packet number space of the application. -/
def onRetry : Except Stop Conn := do
  let c ← c.reclaimOnRetry c.rtb.rtb.ents
  let rtb ← c.rtb.step .resetCcState
  .ok { c with rtb := rtb }

/-- `conn_discard_early_data_state` -/
def discardEarlyDataState : Except Stop Conn := do
  let rtb ← c.rtb.step .removeEarlyData
  .ok { c with
    rtb := rtb
    strmq := c.strmq.filter fun sid => (c.strms sid).isNone
    strms := fun _ => none
    txOffset := 0
    lastBlockedOffset := uint64Max
    rxUnsentMaxOffset := c.params.initialMaxData
    rxMaxOffset := c.params.initialMaxData
    remoteBidi := ⟨c.params.initialMaxStreamsBidi, c.params.initialMaxStreamsBidi⟩
    remoteUni := ⟨c.params.initialMaxStreamsUni, c.params.initialMaxStreamsUni⟩
    nextBidi := 0
    nextUni := 2
    frq := [] }

end Conn

inductive Op
  | openBidiStream
  | openUniStream
  | shutdownStreamWrite (sid : Nat)
  | shutdownStreamRead (sid : Nat)
  | extendMaxStreamOffset (sid datalen : Nat)
  | extendMaxOffset (datalen : Nat)
  | extendMaxStreamsBidi (n : Nat)
  | extendMaxStreamsUni (n : Nat)
  | submitStreamBuf (sid : Nat) (data : List UInt8) (fin : Bool)
  | writePkt (w : Write)
  | onRetry
  /-- the other packet number spaces have now so many bytes in flight -/
  | others (bytes : Nat)
  deriving DecidableEq, Repr

/-- What happens to the connection also without 0-RTT packets. -/
def Op.external : Op → Bool
  | .onRetry | .others _ => true
  | _ => false

def Conn.step (c : Conn) : Op → Except Stop Conn
  | .openBidiStream => .ok c.openBidiStream
  | .openUniStream => .ok c.openUniStream
  | .shutdownStreamWrite sid => .ok (c.shutdownStreamWrite sid)
  | .shutdownStreamRead sid => .ok (c.shutdownStreamRead sid)
  | .extendMaxStreamOffset sid datalen => .ok (c.extendMaxStreamOffset sid datalen)
  | .extendMaxOffset datalen => .ok (c.extendMaxOffset datalen)
  | .extendMaxStreamsBidi n => .ok (c.extendMaxStreamsBidi n)
  | .extendMaxStreamsUni n => .ok (c.extendMaxStreamsUni n)
  | .submitStreamBuf sid data fin => c.submitStreamBuf sid data fin
  | .writePkt w => c.writePkt w
  | .onRetry => c.onRetry
  | .others bytes => do
      let rtb ← c.rtb.step (.others bytes)
      .ok { c with rtb := rtb }

end Zngtcp2.EarlyData
