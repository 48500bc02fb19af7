import Zngtcp2.Conn.Release
import Zngtcp2.Ratelim.Model
import Mathlib.Data.Finset.Insert

namespace Zngtcp2.Rx

open Reorder

/-- A received STREAM frame; the data vector is absent when it is empty. -/
structure StreamFrame where
  streamId : Nat
  offset : Nat
  data : List UInt8
  fin : Bool

def StreamFrame.endOffset (fr : StreamFrame) : Nat :=
  fr.offset + fr.data.length

structure ResetStream where
  streamId : Nat
  finalSize : Nat

structure StreamDataBlocked where
  streamId : Nat
  offset : Nat

/-- One call of the `recv_stream_data` callback. -/
structure Delivery where
  streamId : Nat
  fin : Bool
  early : Bool
  offset : Nat
  data : List UInt8

/-- What the environment decides while a frame is processed: the clock, whether a stream object can
be allocated, and the fate of the buffer of a reordered frame. -/
structure RecvEnv where
  ts : Nat
  strmMem : Bool
  reorder : ReorderEnv

/-- A frame whose stream has just been opened, while the application runs its `stream_open`. -/
inductive Pending
  | stream (fr : StreamFrame) (env : RecvEnv)
  | reset (fr : ResetStream) (env : RecvEnv)
  | blocked (fr : StreamDataBlocked)

/-- Where the library is: outside of any callback, or inside one, with what is left to do when it
returns. `popping` is the offset and length of the list entry being delivered, absent while the
data of the frame itself is. `other` is a callback of the sending side. -/
inductive Ctl
  | idle
  | streamOpen (pending : Pending)
  | recvStreamData (streamId rxOffset : Nat) (popping : Option (Nat × Nat))
  | streamReset (fr : ResetStream) (datalen : Nat)
  | other

/-- What happens to a stream that can be seen from outside: the operations on the map of the streams,
with their results, and the callbacks. -/
inductive Call
  | insert (streamId : Nat) (rv : Rv)
  | remove (streamId : Nat) (rv : Rv)
  | streamOpen (streamId : Nat)
  | recvStreamData (streamId : Nat)
  | streamReset (streamId : Nat)
  | streamClose (streamId : Nat)
  | extendMaxStreamData (streamId : Nat)
  | ackedStreamDataOffset (streamId : Nat)
  | streamStopSending (streamId : Nat)
  deriving DecidableEq, Repr

structure LocalParams where
  initialMaxStreamDataBidiLocal : Nat
  initialMaxStreamDataBidiRemote : Nat
  initialMaxStreamDataUni : Nat

/-- The receiving side of `ngtcp2_conn`. `opened` holds the ids of all streams ever opened (the
remote ones are those `idtr` tracks). The last four fields are history: the deliveries, the
streams as they were closed, the credit the library returned for each stream by itself, and all
that happened to the streams. -/
structure Conn where
  server : Bool
  handshakeCompleted : Bool
  params : LocalParams
  maxWindow : Nat
  localBidiMaxStreams : Nat
  localBidiNextStreamId : Nat
  remoteBidiMaxStreams : Nat
  remoteUniMaxStreams : Nat
  opened : Finset Nat
  strms : Nat → Option Strm
  offset : Nat
  maxOffset : Nat
  unsentMaxOffset : Nat
  window : Nat
  lastMaxDataTs : Option Nat
  glitchRlim : Ratelim
  stats : BufStats
  ctl : Ctl
  delivered : List Delivery
  closed : Nat → Option Strm
  credited : Nat → Nat
  calls : List Call := []

/-- Why processing ends: a failed assertion, an error code, or a call that is not possible here. -/
inductive Stop
  | fault (f : Fault)
  | error (rv : Rv)
  | notEnabled

def bidiStream (streamId : Nat) : Bool :=
  streamId / 2 % 2 = 0

def ordStreamId (streamId : Nat) : Nat :=
  streamId / 4 + 1

namespace Conn

def localStream (conn : Conn) (streamId : Nat) : Bool :=
  streamId % 2 = if conn.server then 1 else 0

def setStrm (conn : Conn) (strm : Strm) : Conn :=
  { conn with strms := Function.update conn.strms strm.streamId (some strm) }

/-- The stream id checks that open the frame handlers; they differ in the code for a local
unidirectional stream. -/
def checkStreamId (conn : Conn) (streamId : Nat) (localUni : Rv) : Rv :=
  if bidiStream streamId then
    if conn.localStream streamId then
      if conn.localBidiNextStreamId ≤ streamId then .streamState else .ok
    else if conn.remoteBidiMaxStreams < ordStreamId streamId then .streamLimit
    else .ok
  else if conn.localStream streamId then localUni
  else if conn.remoteUniMaxStreams < ordStreamId streamId then .streamLimit
  else .ok

def initialStreamRxOffset (conn : Conn) (streamId : Nat) : Nat :=
  if bidiStream streamId then
    if conn.localStream streamId then conn.params.initialMaxStreamDataBidiLocal
    else conn.params.initialMaxStreamDataBidiRemote
  else if conn.localStream streamId then 0
  else conn.params.initialMaxStreamDataUni

def newStrm (conn : Conn) (streamId : Nat) : Strm :=
  { streamId := streamId
    maxOffset := conn.initialStreamRxOffset streamId
    unsentMaxOffset := conn.initialStreamRxOffset streamId
    shutRd := !bidiStream streamId && conn.localStream streamId
    shutWr := !bidiStream streamId && !conn.localStream streamId
    txDataFinAcked := !bidiStream streamId && !conn.localStream streamId }

def initStream (conn : Conn) (streamId : Nat) : Conn :=
  { conn.setStrm (conn.newStrm streamId) with
    opened := insert streamId conn.opened
    calls := conn.calls ++ [.insert streamId (if (conn.strms streamId).isSome then .invalidArgument else .ok)] }

def maxDataViolated (conn : Conn) (datalen : Nat) : Bool :=
  sub64 conn.maxOffset conn.offset < datalen

def extendMaxOffset (conn : Conn) (datalen : Nat) : Conn :=
  { conn with
    unsentMaxOffset :=
      if maxVarint < datalen ∨ conn.unsentMaxOffset > maxVarint - datalen then maxVarint
      else conn.unsentMaxOffset + datalen }

/-- A call of `ngtcp2_conn_extend_max_offset` that the library makes itself for a stream. -/
def credit (conn : Conn) (streamId datalen : Nat) : Conn :=
  { conn.extendMaxOffset datalen with
    credited := Function.update conn.credited streamId (conn.credited streamId + datalen) }

def glitch (conn : Conn) (ts : Nat) : Except Stop Conn :=
  match conn.glitchRlim.drain 1 ts with
  | .error f => .error (.fault f)
  | .ok (true, rlim) => .ok { conn with glitchRlim := rlim }
  | .ok (false, _) => .error (.error .internal)

def release (conn : Conn) (rels : List Release) : Conn :=
  { conn with stats := connReorderReleaseAll conn.stats rels }

def closeStream (conn : Conn) (strm : Strm) : Conn :=
  { conn.release strm.free with
    strms := Function.update conn.strms strm.streamId none
    closed := Function.update conn.closed strm.streamId (some strm)
    calls := conn.calls ++ [.streamClose strm.streamId,
      .remove strm.streamId (if (conn.strms strm.streamId).isSome then .ok else .invalidArgument)] }

def closeStreamIfShutRdwr (conn : Conn) (strm : Strm) : Conn :=
  if strm.shutRd ∧ strm.shutWr ∧ (strm.resetStreamRecved ∨ strm.rxOffset = strm.lastOffset) ∧
      ((strm.resetStream ∧ strm.resetStreamAcked) ∨ strm.txDataFinAcked) then
    conn.closeStream strm
  else conn

/-- Calls `recv_stream_data`; `rxOffset` is the end of the data. -/
def callRecvStreamData (conn : Conn) (strm : Strm) (offset : Nat) (data : List UInt8) (rxOffset : Nat)
    (popping : Option (Nat × Nat)) : Conn :=
  let fin := strm.shutRd && rxOffset = strm.lastOffset
  { conn with
    delivered := conn.delivered ++ [⟨strm.streamId, fin, !conn.handshakeCompleted, offset, data⟩]
    calls := conn.calls ++ [.recvStreamData strm.streamId]
    ctl := .recvStreamData strm.streamId rxOffset popping }

/-- The loop of `conn_emit_pending_stream_data` up to its next callback, and the end of
`conn_recv_stream` after it. -/
def emitPendingStreamData (conn : Conn) (strm : Strm) (rxOffset : Nat) : Except Stop Conn :=
  match strm.reorder with
  | none => .ok { conn.closeStreamIfShutRdwr strm with ctl := .idle }
  | some reorder =>
      if strm.stopSending then .ok { conn.closeStreamIfShutRdwr strm with ctl := .idle }
      else
        match dataAt reorder rxOffset with
        | .error f => .error (.fault f)
        | .ok none =>
            if rxOffset = strm.rxOffset then .ok { conn.closeStreamIfShutRdwr strm with ctl := .idle }
            else .error (.fault .assertion)
        | .ok (some (buf, datalen)) =>
            .ok (conn.callRecvStreamData strm rxOffset buf.bytes (rxOffset + datalen) (some (rxOffset, datalen)))

/-- What follows a `recv_stream_data` that returned 0. -/
def returnRecvStreamData (conn : Conn) (strm : Strm) (rxOffset : Nat) : Option (Nat × Nat) → Except Stop Conn
  | none => conn.emitPendingStreamData strm rxOffset
  | some (offset, datalen) =>
      match strm.reorder with
      | none => .ok { conn.closeStreamIfShutRdwr strm with ctl := .idle }
      | some reorder =>
          match pop reorder offset datalen with
          | .error f => .error (.fault f)
          | .ok (reorder', released) =>
              let strm := { strm with reorder := some reorder', contOffset := rxOffset }
              ((conn.release released).setStrm strm).emitPendingStreamData strm rxOffset

/-- The consumed prefix moves over the part of a frame beyond `rxOffset`: the stream, what its list
releases, and the new offset. -/
def takeInOrder (strm : Strm) (fr : StreamFrame) (rxOffset : Nat) : Strm × List Release × Nat :=
  if fr.data = [] then (strm, [], rxOffset)
  else
    let rxOffset' := rxOffset + (fr.data.length - (rxOffset - fr.offset))
    let r := strm.updateRxOffset rxOffset'
    (r.1, r.2, rxOffset')

def deliverInOrder (conn : Conn) (strm : Strm) (fr : StreamFrame) (rxOffset : Nat) : Except Stop Conn :=
  let r := takeInOrder strm fr rxOffset
  let data := fr.data.drop (rxOffset - fr.offset)
  let conn := (conn.release r.2.1).setStrm r.1
  if r.1.stopSending then .ok (conn.closeStreamIfShutRdwr r.1)
  else if (r.1.shutRd ∧ r.2.2 = r.1.lastOffset) ∨ data ≠ [] then
    .ok (conn.callRecvStreamData r.1 rxOffset data r.2.2 none)
  else .error (.fault .assertion)

def bufferStream (conn : Conn) (strm : Strm) (fr : StreamFrame) (env : RecvEnv) : Except Stop Conn :=
  let r := connRecvReordering conn.stats strm fr.data fr.offset env.reorder
  let conn := { conn.setStrm r.strm with stats := r.stats }
  if r.rv ≠ .ok then .error (.error r.rv)
  else if r.nwrite = 0 then
    match conn.glitch env.ts with
    | .error e => .error e
    | .ok conn => .ok (conn.closeStreamIfShutRdwr r.strm)
  else .ok (conn.closeStreamIfShutRdwr r.strm)

/-- The last part of `conn_recv_stream`: the data is delivered, buffered, or ignored. -/
def deliverStream (conn : Conn) (strm : Strm) (fr : StreamFrame) (rxOffset : Nat) (env : RecvEnv) :
    Except Stop Conn :=
  if fr.offset ≤ rxOffset then conn.deliverInOrder strm fr rxOffset
  else if fr.data ≠ [] ∧ strm.stopSending = false then conn.bufferStream strm fr env
  else .ok ((conn.setStrm strm).closeStreamIfShutRdwr strm)

/-- The bytes up to `endOffset` that are new on the stream count against the connection; the credit
for them is returned at once when the stream is stopped. -/
def account (conn : Conn) (strm : Strm) (endOffset : Nat) : Conn :=
  if strm.lastOffset < endOffset then
    let len := endOffset - strm.lastOffset
    let conn := { conn with offset := conn.offset + len }
    if strm.stopSending then conn.credit strm.streamId len else conn
  else conn

def glitchUnless (conn : Conn) (isNew : Bool) (ts : Nat) : Except Stop Conn :=
  if isNew then .ok conn else conn.glitch ts

/-- `conn_recv_stream` from the point where the stream is known. -/
def recvStreamOn (conn : Conn) (strm : Strm) (fr : StreamFrame) (isNew : Bool) (env : RecvEnv) :
    Except Stop Conn :=
  if strm.maxOffset < fr.endOffset then .error (.error .flowControl)
  else if strm.lastOffset < fr.endOffset ∧ conn.maxDataViolated (fr.endOffset - strm.lastOffset) then
    .error (.error .flowControl)
  else
    let conn := conn.account strm fr.endOffset
    let rxOffset := strm.rxOffset
    if fr.fin then
      if strm.shutRd then
        if strm.lastOffset ≠ fr.endOffset then .error (.error .finalSize)
        else if strm.resetStreamRecved then conn.glitch env.ts
        else if rxOffset = fr.endOffset then conn.glitchUnless isNew env.ts
        else conn.deliverStream strm fr rxOffset env
      else if strm.lastOffset > fr.endOffset then .error (.error .finalSize)
      else conn.deliverStream { strm with lastOffset := fr.endOffset, shutRd := true } fr rxOffset env
    else if strm.shutRd ∧ strm.lastOffset < fr.endOffset then .error (.error .finalSize)
    else
      let strm := { strm with lastOffset := max strm.lastOffset fr.endOffset }
      if fr.endOffset ≤ rxOffset then (conn.setStrm strm).glitchUnless isNew env.ts
      else if strm.resetStreamRecved then (conn.setStrm strm).glitch env.ts
      else conn.deliverStream strm fr rxOffset env

end Conn

end Zngtcp2.Rx
