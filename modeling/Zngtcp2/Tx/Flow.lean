import Zngtcp2.Tx.StreamFrames

namespace Zngtcp2.TxFlow

open Strm StreamTx

/-- A value of a variable-length integer. -/
abbrev Varint := Fin (2 ^ 62)

/-- The limits among the transport parameters of the peer. -/
structure Params where
  initialMaxData : Varint
  initialMaxStreamDataBidiLocal : Varint
  initialMaxStreamDataBidiRemote : Varint
  initialMaxStreamDataUni : Varint
  deriving DecidableEq, Repr

/-- Data that was accepted for a stream, and the limits of the stream and of the connection then. -/
structure Chunk where
  sid : Nat
  offset : Nat
  len : Nat
  strmLimit : Nat
  connLimit : Nat
  deriving DecidableEq, Repr

/-- The flow control of what is sent: `maxStream` are the `tx.max_offset` of the streams, `offset` and
`maxOffset` those of the connection. The last three fields record what happened: the MAX_DATA frames,
how much was accepted for each stream, and in which chunks. -/
structure Conn where
  server : Bool
  tx : StreamTx.State
  maxStream : Nat → Nat
  offset : Nat
  maxOffset : Nat
  params : Option Params
  pending : Option Params
  transportParamRecved : Bool
  earlyKey : Bool
  rxKey : Bool
  txKey : Bool
  earlyDataRejected : Bool
  maxDataRecved : List Varint
  offsets : Nat → Nat
  accepted : List Chunk

namespace Conn

def new (server : Bool) : Conn :=
  ⟨server, .new, fun _ => 0, 0, 0, none, none, false, false, false, false, false, [], fun _ => 0, []⟩

variable (c : Conn)

def bidiStream (sid : Nat) : Bool :=
  sid % 4 < 2

def localStream (sid : Nat) : Bool :=
  decide (sid % 2 = 1) == c.server

/-- The limit that `ngtcp2_conn_init_stream` gives to a stream. -/
def initialLimit (p : Params) (sid : Nat) : Nat :=
  if bidiStream sid then
    if c.localStream sid then p.initialMaxStreamDataBidiRemote else p.initialMaxStreamDataBidiLocal
  else if c.localStream sid then p.initialMaxStreamDataUni
  else 0

/-- `conn_fc_credits`, with the unsigned subtractions. -/
def fcCredits (sid : Nat) (strm : TxStrm) : Nat :=
  min (sub64 (c.maxStream sid) strm.offset) (sub64 c.maxOffset c.offset)

def enforceFlowControl (sid : Nat) (strm : TxStrm) (len : Nat) : Nat :=
  min len (c.fcCredits sid strm)

/-- `n` bytes are accepted for the stream. -/
def accept (sid : Nat) (strm : TxStrm) (n : Nat) : Conn :=
  { c with
    offset := c.offset + n
    offsets := Function.update c.offsets sid (strm.offset + n)
    accepted := c.accepted ++ [⟨sid, strm.offset, n, c.maxStream sid, c.maxOffset⟩] }

/-- The transport parameters take effect; `tx.max_offset` is assigned. -/
def install (p : Params) : Conn :=
  { c with params := some p, pending := none, maxOffset := p.initialMaxData }

/-- A packet with frames other than of the handshake can be decrypted. -/
def canDecrypt : Bool :=
  c.rxKey || (c.server && c.earlyKey)

def refusesWrite (strm : TxStrm) (datalen : Nat) : Bool :=
  maxVarint < strm.offset + datalen || maxVarint < c.offset + datalen

/-- The call for new data returns an error before anything is written. -/
def refusesCall : Option (Nat × List UInt8 × Bool × Nat) → Bool
  | none => false
  | some (sid, data, _) =>
      match c.tx.strms sid with
      | none => true
      | some strm => strm.shutWr || c.refusesWrite strm data.length

/-- A packet is written: the rounds over the queued streams, then new data of a stream, of which at
most `room` bytes fit. -/
def write (rounds : List (Nat × Nat)) (new : Option (Nat × List UInt8 × Bool × Nat)) : Except Stop Conn :=
  if c.refusesCall new then .ok c
  else do
    let pkt ← writeRounds rounds (c.tx, [])
    match new with
    | none => .ok { c with tx := finishPkt pkt }
    | some (sid, data, fin, room) =>
        match pkt.1.strms sid with
        | none => .ok { c with tx := finishPkt pkt }
        | some strm =>
            let n := min (c.enforceFlowControl sid strm data.length) room
            let fin := fin && decide (n = data.length)
            if (data = [] ∨ n ≠ 0) ∧ (n = c.enforceFlowControl sid strm data.length ∨ minStreamDatalen ≤ n) ∧
                writes strm (data.take n) fin ∧ strmqEmpty pkt.1 then
              .ok { c.accept sid strm n with tx := finishPkt (writeNew pkt (some (sid, data.take n, fin))) }
            else .ok { c with tx := finishPkt pkt }

/-- `ngtcp2_conn_submit_stream_buf`. -/
def submit (sid : Nat) (data : List UInt8) (fin : Bool) : Except Stop Conn :=
  match c.tx.strms sid with
  | none => .ok c
  | some strm =>
      let n := c.enforceFlowControl sid strm data.length
      let fin := fin && decide (n = data.length)
      if ¬c.refusesWrite strm n ∧ submits strm (data.take n) fin then do
        let tx ← StreamTx.step c.tx (.submit sid (data.take n) fin)
        .ok { c.accept sid strm n with tx := tx }
      else .ok c

/-- `ngtcp2_conn_init_stream` for a stream id that was not used yet. -/
def openStream (sid : Nat) : Except Stop Conn :=
  if sid ∈ c.tx.opened then .ok c
  else
    match c.params with
    | none => if c.localStream sid then .ok c else .error (.fault .assertion)
    | some p => do
        let tx ← StreamTx.step c.tx (.openStream sid (bidiStream sid || c.localStream sid))
        .ok { c with
          tx := tx
          maxStream := Function.update c.maxStream sid (c.initialLimit p sid)
          offsets := Function.update c.offsets sid 0 }

/-- `conn_sync_stream_data_limit`. -/
def syncStreamDataLimit : Except Stop Conn :=
  match c.params with
  | none => .error (.fault .assertion)
  | some p =>
      .ok { c with maxStream := fun sid =>
        if (c.tx.strms sid).isSome ∧ c.localStream sid then max (c.maxStream sid) (c.initialLimit p sid) else c.maxStream sid }

/-- `conn_discard_early_data_state`; the packets at `oneRtt` were not sent as 0-RTT. -/
def discardEarlyData (oneRtt : List Nat) : Conn :=
  { c with
    tx := { c.tx with
      strms := fun _ => none
      opened := []
      rtb := (c.tx.rtb.zipIdx.filter (fun p => p.2 ∈ oneRtt)).map Prod.fst }
    offset := 0
    earlyDataRejected := true }

end Conn

inductive Input
  | set0rttParams (p : Params)
  | setRemoteParams (p : Params)
  | install0rttKey
  | installRxKey
  | installTxKey
  | syncStreamDataLimit
  | maxData (n : Varint)
  | maxStreamData (sid : Nat) (n : Varint)
  | openStream (sid : Nat)
  | write (rounds : List (Nat × Nat)) (new : Option (Nat × List UInt8 × Bool × Nat))
  | submit (sid : Nat) (data : List UInt8) (fin : Bool)
  | earlyDataRejected (oneRtt : List Nat)
  | stream (input : StreamTx.Input)
  deriving DecidableEq, Repr

def step (c : Conn) : Input → Except Stop Conn
  | .set0rttParams p =>
      if c.server ∨ c.params ≠ none then .error (.fault .assertion)
      else .ok { c with params := some p, maxOffset := p.initialMaxData }
  | .setRemoteParams p =>
      if c.transportParamRecved then .ok c
      else if (c.server && c.txKey) || (!c.server && c.rxKey) then .ok { c.install p with transportParamRecved := true }
      else if c.pending ≠ none then .error (.fault .assertion)
      else .ok { c with pending := some p, transportParamRecved := true }
  | .install0rttKey => if c.earlyKey then .error (.fault .assertion) else .ok { c with earlyKey := true }
  | .installRxKey =>
      if c.rxKey then .error (.fault .assertion)
      else
        match c.pending with
        | some p => .ok (if c.server then { c with rxKey := true } else { c.install p with rxKey := true })
        | none => .ok { c with rxKey := true }
  | .installTxKey =>
      if c.txKey then .error (.fault .assertion)
      else
        match c.pending with
        | some p => .ok (if c.server then { c.install p with txKey := true } else { c with txKey := true })
        | none => .ok { c with txKey := true }
  | .syncStreamDataLimit => c.syncStreamDataLimit
  | .maxData n =>
      if c.canDecrypt then .ok { c with maxOffset := max c.maxOffset n, maxDataRecved := n :: c.maxDataRecved } else .ok c
  | .maxStreamData sid n =>
      if c.canDecrypt ∧ (c.tx.strms sid).isSome ∧ c.maxStream sid < n then
        .ok { c with maxStream := Function.update c.maxStream sid n }
      else .ok c
  | .openStream sid => c.openStream sid
  | .write rounds new => c.write rounds new
  | .submit sid data fin => c.submit sid data fin
  | .earlyDataRejected oneRtt => .ok (if c.earlyDataRejected then c else c.discardEarlyData oneRtt)
  | .stream input =>
      if input.passive then do
        let tx ← StreamTx.step c.tx input
        .ok { c with tx := tx }
      else .ok c

end Zngtcp2.TxFlow
