import Zngtcp2.Buf
import Zngtcp2.Err
import Zngtcp2.Pkt.Hd

namespace Zngtcp2.Cpkt

open Pkt

/-- How the allocator answers a request for a buffer: not at all, with one that fails validation or
is too small, or with one that will do. -/
inductive Alloc
  | fails (e : Err)
  | unfit
  | gives
  deriving DecidableEq

/-- What happens while a datagram is processed: a copy of trailing bytes is allocated or released,
and the packet handler returns for the bytes it was given. -/
inductive Event
  | alloc (id : Nat)
  | release (id : Nat)
  | recv (pkt : Bytes) (nread : Except Err Nat)

/-- The connection, as far as the loops over a datagram see it: what only the packet handler
reads or writes is in `st`. -/
structure Conn (σ : Type) where
  st : σ
  rxPktBufCtx : Bool
  dcidBytesRecv : Nat := 0
  pktDiscarded : Nat := 0
  pktRecv : Nat := 0
  bytesRecv : Nat := 0
  deriving DecidableEq

/-- The connection while a datagram is processed, with the number of requests to the allocator and
the events so far. -/
structure Work (σ : Type) where
  conn : Conn σ
  nalloc : Nat := 0
  log : List Event := []

variable {σ : Type}

namespace Work

def emit (w : Work σ) (e : Event) : Work σ :=
  { w with log := w.log ++ [e] }

/-- `conn_alloc_rx_packet_copy`; a copy is known by the number of the request it answers. -/
def allocRxPacketCopy (alloc : Nat → Alloc) (w : Work σ) : Except Err Nat × Work σ :=
  let id := w.nalloc
  let w := { w with nalloc := id + 1 }
  match alloc id with
  | .fails e => (.error e, w)
  | .unfit => (.error .bufContract, (w.emit (.alloc id)).emit (.release id))
  | .gives => (.ok id, w.emit (.alloc id))

/-- `conn_release_rx_packet_copy`, with `none` for a buffer that was never allocated. -/
def releaseRxPacketCopy (w : Work σ) : Option Nat → Work σ
  | none => w
  | some id => w.emit (.release id)

end Work

/-- The length of the first of several packets. It is `none` if no byte follows the first packet, or
none can be told from the header. -/
def splitLen (pkt : Bytes) : Option Nat :=
  if pkt.length = 0 ∨ isLongForm pkt = false then none
  else
    match decodeHdLong pkt with
    | none => none
    | some (nread, hd) =>
        if hd.type = .versionNegotiation ∨ hd.type = .retry ∨ pkt.length - nread < hd.len then none
        else if nread + hd.len = pkt.length then none
        else some (nread + hd.len)

/-- The length of the packet to be handled next, and the copy of the bytes that follow it. -/
def connSplitRxTrailing (alloc : Nat → Alloc) (w : Work σ) (pkt : Bytes) :
    Except Err (Nat × Option Nat) × Work σ :=
  if w.conn.rxPktBufCtx = false then (.ok (pkt.length, none), w)
  else
    match splitLen pkt with
    | none => (.ok (pkt.length, none), w)
    | some firstlen =>
        match w.allocRxPacketCopy alloc with
        | (.error e, w) => (.error e, w)
        | (.ok id, w) => (.ok (firstlen, some id), w)

/-- The place in the datagram: `pkt` are the bytes from there on. They lie in the copy `current`, or
in the datagram itself if that is `none`; `off` is their distance from the begin of either. -/
structure Cursor where
  pkt : Bytes
  off : Nat := 0
  current : Option Nat := none
  consumed : Nat := 0

/-- `origpkt == pkt` -/
def Cursor.isFirst (c : Cursor) : Bool :=
  c.current.isNone ∧ c.off = 0

/-- What is done about an error of the packet handler: it is returned, or the packet counts as
discarded and either the given value is returned or the next packet is looked at. -/
inductive OnError
  | fail (e : Err)
  | drop (res : Except Err Nat)
  | discard

/-- The two functions that process a datagram differ in the packet handler, in what they do about its
errors, in whether a packet of which it reads nothing ends the loop, and in what they return. -/
structure Procedure (σ : Type) where
  recv : σ → Bytes → Except Err Nat × σ
  onError : (first : Bool) → (pkt : Bytes) → Err → σ → OnError × σ
  stopsAtZero : Bool
  res : Nat

/-- The label `fin_next`. -/
def leave (w : Work σ) (current next : Option Nat) (res : Except Err Nat) : Except Err Nat × Work σ :=
  (res, (w.releaseRxPacketCopy next).releaseRxPacketCopy current)

/-- The rest of a round, with the length of the packet to be handled and the copy of the bytes behind
it: the function returns, or goes on at another place. -/
def recvNext (p : Procedure σ) (w : Work σ) (c : Cursor) (firstlen : Nat) (next : Option Nat) :
    Except Fault (Except Err Nat × Work σ ⊕ Work σ × Cursor) :=
  let given := c.pkt.take firstlen
  let r := p.recv w.conn.st given
  let w := { w with conn := { w.conn with st := r.2 } }.emit (.recv given r.1)
  match r.1 with
  | .error e =>
      let v := p.onError c.isFirst c.pkt e r.2
      let w := { w with conn := { w.conn with st := v.2 } }
      match v.1 with
      | .fail e => .ok (.inl (leave w c.current next (.error e)))
      | .drop res =>
          let w := { w with conn := { w.conn with pktDiscarded := w.conn.pktDiscarded + 1 } }
          .ok (.inl (leave w c.current next res))
      | .discard =>
          let w := { w with conn := { w.conn with pktDiscarded := w.conn.pktDiscarded + 1 } }
          match next with
          | some id => .ok (.inr (w.releaseRxPacketCopy c.current, ⟨c.pkt.drop firstlen, 0, some id, c.consumed⟩))
          | none => .ok (.inl (leave w c.current none (.ok p.res)))
  | .ok nread =>
      if p.stopsAtZero ∧ nread = 0 then
        if isLongForm c.pkt then .error .assertion
        else .ok (.inl (leave w c.current next (.ok (if c.current.isSome then c.consumed else c.off))))
      else if firstlen < nread then .error .assertion
      else
        let w := { w with conn := { w.conn with
          pktRecv := w.conn.pktRecv + 1
          bytesRecv := w.conn.bytesRecv + nread } }
        match next with
        | some id =>
            .ok (.inr (w.releaseRxPacketCopy c.current, ⟨c.pkt.drop firstlen, 0, some id, c.consumed + nread⟩))
        | none => .ok (.inr (w, ⟨c.pkt.drop nread, c.off + nread, c.current, c.consumed + nread⟩))

/-- One round of the loop. -/
def step (alloc : Nat → Alloc) (p : Procedure σ) (w : Work σ) (c : Cursor) :
    Except Fault (Except Err Nat × Work σ ⊕ Work σ × Cursor) :=
  match connSplitRxTrailing alloc w c.pkt with
  | (.error e, w) => .ok (.inl (.error e, w.releaseRxPacketCopy c.current))
  | (.ok (firstlen, next), w) => recvNext p w c firstlen next

/-- At most `fuel` rounds of the loop; `none` if it has not ended by then. -/
def loop (alloc : Nat → Alloc) (p : Procedure σ) : Nat → Work σ → Cursor →
    Option (Except Fault (Except Err Nat × Work σ))
  | fuel, w, c =>
      if c.pkt = [] then some (.ok (.ok p.res, w.releaseRxPacketCopy c.current))
      else
        match fuel with
        | 0 => none
        | fuel + 1 =>
            match step alloc p w c with
            | .error e => some (.error e)
            | .ok (.inl r) => some (.ok r)
            | .ok (.inr (w, c)) => loop alloc p fuel w c

/-- What the packet handler of the handshake does with one packet, once it has found out where the
packet ends, and what it asks the connection about. `none` stands for a packet that is read, be it
processed, buffered or ignored. -/
structure HandshakeOps (σ : Type) where
  server : Bool
  /-- The state is `NGTCP2_CS_SERVER_INITIAL`. -/
  serverInitial : σ → Bool
  /-- The key for 1-RTT packets is there. -/
  rxCkm : σ → Bool
  /-- The Initial packet number space is there, and no packet was received in it. -/
  noInitialRecved : σ → Bool
  bufferPkt : σ → Bytes → Option Err × σ
  recvVersionNegotiation : σ → PktHd → Bytes → Err × σ
  recvRetry : σ → PktHd → Bytes → Option Err × σ
  recvLong : σ → PktHd → Bytes → Option Err × σ

/-- The packet is read to its end unless there is an error. -/
def readTo (n : Nat) (r : Option Err × σ) : Except Err Nat × σ :=
  (match r.1 with
    | none => .ok n
    | some e => .error e, r.2)

def minQuicPktlen : Nat := 21

/-- A packet that begins with 21 zeros is most likely padding. -/
def shouldBuffer1RttPkt (pkt : Bytes) : Bool :=
  minQuicPktlen ≤ pkt.length ∧
    (pkt.getD 0 0 ≠ 0 ∨ pkt.take (minQuicPktlen - 1) ≠ (pkt.drop 1).take (minQuicPktlen - 1))

def connRecvHandshakePkt (ops : HandshakeOps σ) (st : σ) (pkt : Bytes) : Except Err Nat × σ :=
  if isLongForm pkt = false then
    if ops.serverInitial st ∨ shouldBuffer1RttPkt pkt = false then (.ok pkt.length, st)
    else if ops.rxCkm st then (.ok 0, st)
    else readTo pkt.length (ops.bufferPkt st pkt)
  else
    match decodeHdLong pkt with
    | none => (.error .discardPkt, st)
    | some (nread, hd) =>
        match hd.type with
        | .versionNegotiation =>
            let r := ops.recvVersionNegotiation st hd pkt
            (.error r.1, r.2)
        | .retry => readTo pkt.length (ops.recvRetry st hd pkt)
        | _ =>
            if pkt.length < nread + hd.len then (.error .discardPkt, st)
            else
              let pktlen := nread + hd.len
              readTo pktlen (ops.recvLong st hd (pkt.take pktlen))

/-- The packet has the form of an Initial packet, whether or not it can be decoded. -/
def isInitial (pkt : Bytes) : Bool :=
  isLongForm pkt ∧ 4 < pkt.length ∧
    pktGetTypeLong (getUintbe ((pkt.drop 1).take 4)) (pkt.getD 0 0) = some .initial

def handshakeOnError (ops : HandshakeOps σ) (dgramlen : Nat) (_first : Bool) (pkt : Bytes) (e : Err) (st : σ) :
    OnError × σ :=
  (if e.isFatal then .fail e
    else if e = .draining then .fail .draining
    else if isInitial pkt then
      if e.isUnrecoverable then .fail e
      -- A server whose first Initial packet is discarded gives up: the SCID might be corrupted.
      else if ops.server ∧ ops.noInitialRecved st then .drop (.error .dropConn)
      else .drop (.ok dgramlen)
    else if e = .discardPkt then .discard
    else .fail e, st)

def handshakeProcedure (ops : HandshakeOps σ) (dgramlen : Nat) : Procedure σ where
  recv := connRecvHandshakePkt ops
  onError := handshakeOnError ops dgramlen
  stopsAtZero := true
  res := dgramlen

/-- The network path a datagram came on: whether it is the current one, and whether a server refuses
it because active migration is disabled. -/
structure Arrival where
  current : Bool
  refused : Bool

def countDgram (arrival : Arrival) (conn : Conn σ) (dgramlen : Nat) : Conn σ :=
  if arrival.current then { conn with dcidBytesRecv := conn.dcidBytesRecv + dgramlen } else conn

def connRecvHandshakeCpkt (alloc : Nat → Alloc) (ops : HandshakeOps σ) (arrival : Arrival) (conn : Conn σ)
    (dgram : Bytes) (fuel : Nat) : Option (Except Fault (Except Err Nat × Work σ)) :=
  if dgram = [] then some (.ok (.ok 0, { conn := conn }))
  else
    loop alloc (handshakeProcedure ops dgram.length) fuel { conn := countDgram arrival conn dgram.length }
      { pkt := dgram }

/-- What the packet handler does with one packet after the handshake. -/
structure PktOps (σ : Type) where
  recvShort : σ → Bytes → Option Err × σ
  recvLong : σ → PktHd → Bytes → Option Err × σ
  /-- `conn_on_stateless_reset` returns 0. -/
  onStatelessReset : σ → Bytes → Bool × σ

def connRecvPkt (ops : PktOps σ) (st : σ) (pkt : Bytes) : Except Err Nat × σ :=
  if isLongForm pkt then
    match decodeHdLong pkt with
    | none => (.error .discardPkt, st)
    | some (nread, hd) =>
        if pkt.length < nread + hd.len then (.error .discardPkt, st)
        else
          let pktlen := nread + hd.len
          readTo pktlen (ops.recvLong st hd (pkt.take pktlen))
  else readTo pkt.length (ops.recvShort st pkt)

def cpktOnError (ops : PktOps σ) (first : Bool) (pkt : Bytes) (e : Err) (st : σ) : OnError × σ :=
  if e.isFatal then (.fail e, st)
  else if e = .draining then (.fail .draining, st)
  else
    let (reset, st) := if first then ops.onStatelessReset st pkt else (false, st)
    (if reset then .fail .draining else if e = .discardPkt then .discard else .fail e, st)

def cpktProcedure (ops : PktOps σ) : Procedure σ where
  recv := connRecvPkt ops
  onError := cpktOnError ops
  stopsAtZero := false
  res := 0

def connRecvCpkt (alloc : Nat → Alloc) (ops : PktOps σ) (arrival : Arrival) (conn : Conn σ) (dgram : Bytes)
    (fuel : Nat) : Option (Except Fault (Except Err Nat × Work σ)) :=
  let conn := countDgram arrival conn dgram.length
  if arrival.refused then some (.ok (.ok 0, { conn := conn }))
  else loop alloc (cpktProcedure ops) fuel { conn := conn } { pkt := dgram }

/-- How `conn_read_handshake` ends after the packets of a datagram are processed: with an error, with
all of the datagram read, or with what the loop returned. -/
inductive HandshakeEnd
  | fails (e : Err)
  | readAll
  | keeps

/-- What is left of the work on a datagram when a function has returned. -/
def returned (out : Option (Except Fault (Except Err Nat × Work σ))) : Option (Except Fault (Except Err Nat × Conn σ)) :=
  out.map (Except.map fun r => (r.1, r.2.conn))

/-- `ngtcp2_conn_read_pkt` during the handshake. `after` is what `conn_read_handshake` does behind the
loop; it is told the bytes that are not read. -/
def connReadPktHandshake (alloc : Nat → Alloc) (hsOps : HandshakeOps σ) (ops : PktOps σ)
    (after : σ → Bytes → HandshakeEnd × σ) (arrival : Arrival) (conn : Conn σ) (dgram : Bytes) (fuel : Nat) :
    Option (Except Fault (Except Err Nat × Conn σ)) :=
  match connRecvHandshakeCpkt alloc hsOps arrival conn dgram fuel with
  | none => none
  | some (.error f) => some (.error f)
  | some (.ok (.error e, w)) => some (.ok (.error e, w.conn))
  | some (.ok (.ok nread, w)) =>
      let r := after w.conn.st (dgram.drop nread)
      let conn := { w.conn with st := r.2 }
      match r.1 with
      | .fails e => some (.ok (.error e, conn))
      | .readAll => some (.ok (.ok 0, conn))
      | .keeps =>
          if nread = dgram.length then some (.ok (.ok 0, conn))
          else if hsOps.rxCkm conn.st = false then some (.error .assertion)
          else returned (connRecvCpkt alloc ops arrival conn (dgram.drop nread) fuel)

end Zngtcp2.Cpkt
