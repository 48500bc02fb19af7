import Zngtcp2.Rx.Step
import Zngtcp2.Strm.Gaptr

namespace Zngtcp2.Rx

open Gaptr (Gaps)

structure StopSending where
  streamId : Nat

structure MaxStreamData where
  streamId : Nat
  maxStreamData : Nat

/-- What is left to do when a callback of the sending side returns. -/
inductive After
  | nothing
  | stopSending (fr : StopSending) (env : RecvEnv)
  | maxStreamData (fr : MaxStreamData) (env : RecvEnv)
  | ackStream (streamId : Nat)

/-- All that opens and closes streams: the receiving side, the trackers of the stream ids the peer
has used, and what the handlers of the frames for the sending side read. `remoteParams` holds the
transport parameters of the peer; `txMaxOffset` and `stopSendingRecved` are kept by stream. -/
structure Streams where
  conn : Conn
  bidiIdtr : Gaps
  uniIdtr : Gaps
  remoteBidiUnsentMaxStreams : Nat
  remoteUniUnsentMaxStreams : Nat
  localUniMaxStreams : Nat
  localUniNextStreamId : Nat
  remoteParams : LocalParams
  txMaxOffset : Nat → Nat
  stopSendingRecved : Nat → Bool
  after : After

/-- `none` is NGTCP2_ERR_STREAM_IN_USE. -/
def idtrOpen (idtr : Gaps) (streamId : Nat) : Except Fault (Option Gaps) :=
  match Gaptr.isPushed idtr (streamId / 4) 1 with
  | .error f => .error f
  | .ok true => .ok none
  | .ok false => .ok (some (Gaptr.push idtr (streamId / 4) 1))

namespace Streams

def lift (st : Streams) : Except Stop Conn → Except Stop Streams
  | .ok conn => .ok { st with conn := conn }
  | .error e => .error e

def idtr (st : Streams) (streamId : Nat) : Gaps :=
  if bidiStream streamId then st.bidiIdtr else st.uniIdtr

def setIdtr (st : Streams) (streamId : Nat) (idtr : Gaps) : Streams :=
  if bidiStream streamId then { st with bidiIdtr := idtr } else { st with uniIdtr := idtr }

def initialStreamTxOffset (st : Streams) (streamId : Nat) : Nat :=
  if bidiStream streamId then
    if st.conn.localStream streamId then st.remoteParams.initialMaxStreamDataBidiRemote
    else st.remoteParams.initialMaxStreamDataBidiLocal
  else if st.conn.localStream streamId then st.remoteParams.initialMaxStreamDataUni
  else 0

/-- The sending side of a new stream. -/
def initTx (st : Streams) (streamId : Nat) : Streams :=
  { st with
    txMaxOffset := Function.update st.txMaxOffset streamId (st.initialStreamTxOffset streamId)
    stopSendingRecved := Function.update st.stopSendingRecved streamId false }

/-- The part that the five frame handlers share: the stream is found, or it is closed, or it is
opened. `precheck` is the check that RESET_STREAM makes before the stream is created. -/
def findOrOpen (st : Streams) (streamId : Nat) (env : RecvEnv) (precheck : Rv) (ctl : Ctl) (after : After)
    (ignore : Except Stop Streams) (found : Strm → Except Stop Streams) : Except Stop Streams :=
  match st.conn.strms streamId with
  | some strm => found strm
  | none =>
      if st.conn.localStream streamId then ignore
      else
        match idtrOpen (st.idtr streamId) streamId with
        | .error f => .error (.fault f)
        | .ok none => ignore
        | .ok (some idtr) =>
            if precheck ≠ .ok then .error (.error precheck)
            else if env.strmMem = false then .error (.error .nomem)
            else
              let conn := st.conn.initStream streamId
              .ok { (st.setIdtr streamId idtr).initTx streamId with
                conn := { conn with calls := conn.calls ++ [.streamOpen streamId], ctl := ctl }
                after := after }

def recvStream (st : Streams) (fr : StreamFrame) (env : RecvEnv) : Except Stop Streams :=
  match st.conn.checkStreamId fr.streamId .streamState with
  | .ok =>
      if maxVarint < fr.offset + fr.data.length then .error (.error .flowControl)
      else st.findOrOpen fr.streamId env .ok (.streamOpen (.stream fr env)) .nothing
        (st.lift (st.conn.glitch env.ts)) (fun strm => st.lift (st.conn.recvStreamOn strm fr false env))
  | rv => .error (.error rv)

def recvResetStream (st : Streams) (fr : ResetStream) (env : RecvEnv) : Except Stop Streams :=
  match st.conn.checkStreamId fr.streamId .proto with
  | .ok =>
      if maxVarint < fr.finalSize then .error (.error .flowControl)
      else
        let precheck := if st.conn.initialStreamRxOffset fr.streamId < fr.finalSize ∨
          st.conn.maxDataViolated fr.finalSize then .flowControl else .ok
        st.findOrOpen fr.streamId env precheck (.streamOpen (.reset fr env)) .nothing
          (st.lift (st.conn.glitch env.ts)) (fun strm => st.lift (st.conn.recvResetStreamOn strm fr env))
  | rv => .error (.error rv)

def recvStreamDataBlocked (st : Streams) (fr : StreamDataBlocked) (env : RecvEnv) : Except Stop Streams :=
  match st.conn.checkStreamId fr.streamId .streamState with
  | .ok =>
      st.findOrOpen fr.streamId env .ok (.streamOpen (.blocked fr)) .nothing
        (.ok st) (fun strm => st.lift (st.conn.recvStreamDataBlockedOn strm fr))
  | rv => .error (.error rv)

/-- The stream id checks of the frames for the sending side. -/
def checkTxStreamId (st : Streams) (streamId : Nat) : Rv :=
  if bidiStream streamId then
    if st.conn.localStream streamId then
      if st.conn.localBidiNextStreamId ≤ streamId then .streamState else .ok
    else if st.conn.remoteBidiMaxStreams < ordStreamId streamId then .streamLimit
    else .ok
  else if st.conn.localStream streamId = false ∨ st.localUniNextStreamId ≤ streamId then .streamState
  else .ok

/-- `conn_recv_stop_sending` from the point where the stream is known. RESET_STREAM is scheduled
unless all data and FIN have been acknowledged. -/
def recvStopSendingOn (st : Streams) (strm : Strm) (fr : StopSending) (env : RecvEnv) : Except Stop Streams :=
  if st.stopSendingRecved fr.streamId then st.lift (st.conn.glitch env.ts)
  else
    let strm := { strm with resetStream := strm.resetStream || !strm.txDataFinAcked, shutWr := true }
    .ok { st with
      conn := (st.conn.setStrm strm).closeStreamIfShutRdwr strm
      stopSendingRecved := Function.update st.stopSendingRecved fr.streamId true }

def recvStopSending (st : Streams) (fr : StopSending) (env : RecvEnv) : Except Stop Streams :=
  match st.checkTxStreamId fr.streamId with
  | .ok =>
      st.findOrOpen fr.streamId env .ok .other (.stopSending fr env)
        (st.lift (st.conn.glitch env.ts)) (fun strm => st.recvStopSendingOn strm fr env)
  | rv => .error (.error rv)

/-- `conn_recv_max_stream_data` from the point where the stream is known. -/
def recvMaxStreamDataOn (st : Streams) (strm : Strm) (fr : MaxStreamData) (env : RecvEnv) : Except Stop Streams :=
  if fr.maxStreamData ≤ st.txMaxOffset fr.streamId then st.lift (st.conn.glitch env.ts)
  else
    let st := { st with txMaxOffset := Function.update st.txMaxOffset fr.streamId fr.maxStreamData }
    if strm.shutWr then st.lift (st.conn.glitch env.ts)
    else
      .ok { st with
        conn := { st.conn with calls := st.conn.calls ++ [.extendMaxStreamData fr.streamId], ctl := .other } }

def recvMaxStreamData (st : Streams) (fr : MaxStreamData) (env : RecvEnv) : Except Stop Streams :=
  match st.checkTxStreamId fr.streamId with
  | .ok =>
      st.findOrOpen fr.streamId env .ok .other (.maxStreamData fr env)
        (st.lift (st.conn.glitch env.ts)) (fun strm => st.recvMaxStreamDataOn strm fr env)
  | rv => .error (.error rv)

/-- A STREAM frame is acknowledged, after which `txDataFinAcked` tells whether all data and FIN are.
With `acked_stream_data_offset` registered, nothing more is done unless the frame carries FIN or
moves the acknowledged prefix. -/
def ackStream (st : Streams) (streamId : Nat) (txDataFinAcked registered advances : Bool) : Streams :=
  match st.conn.strms streamId with
  | none => st
  | some strm =>
      let strm := { strm with txDataFinAcked := strm.txDataFinAcked || txDataFinAcked }
      let conn := st.conn.setStrm strm
      if registered then
        if advances then
          { st with
            conn := { conn with calls := conn.calls ++ [.ackedStreamDataOffset streamId], ctl := .other }
            after := .ackStream streamId }
        else { st with conn := conn }
      else { st with conn := conn.closeStreamIfShutRdwr strm }

def ackResetStream (st : Streams) (streamId : Nat) : Streams :=
  match st.conn.strms streamId with
  | none => st
  | some strm =>
      let strm := { strm with resetStreamAcked := true }
      { st with conn := (st.conn.setStrm strm).closeStreamIfShutRdwr strm }

/-- STOP_SENDING is written for a stream, after its callback; the flag is not sent when all data has
arrived meanwhile. -/
def writeStopSending (st : Streams) (streamId : Nat) : Streams :=
  match st.conn.strms streamId with
  | none => st
  | some strm =>
      if strm.shutRd ∧ strm.rxOffset = strm.lastOffset then st
      else { st with conn := { st.conn with calls := st.conn.calls ++ [.streamStopSending streamId], ctl := .other } }

def openBidiStream (st : Streams) : Streams :=
  if st.conn.localBidiMaxStreams < ordStreamId st.conn.localBidiNextStreamId then st
  else { st.initTx st.conn.localBidiNextStreamId with conn := st.conn.openBidiStream }

def openUniStream (st : Streams) : Streams :=
  if st.localUniMaxStreams < ordStreamId st.localUniNextStreamId then st
  else
    { st.initTx st.localUniNextStreamId with
      conn := st.conn.initStream st.localUniNextStreamId
      localUniNextStreamId := st.localUniNextStreamId + 4 }

def maxStreams : Nat := 2 ^ 60

/-- `handle_max_remote_streams_extension`. -/
def extended (unsent n : Nat) : Nat :=
  if maxStreams < n ∨ unsent > maxStreams - n then maxStreams else unsent + n

def extendMaxStreams (st : Streams) (bidi : Bool) (n : Nat) : Streams :=
  if bidi then { st with remoteBidiUnsentMaxStreams := extended st.remoteBidiUnsentMaxStreams n }
  else { st with remoteUniUnsentMaxStreams := extended st.remoteUniUnsentMaxStreams n }

/-- The MAX_STREAMS parts of `conn_write_pkt`. -/
def sendMaxStreams (st : Streams) (bidi : Bool) : Streams :=
  if bidi then
    if st.conn.remoteBidiMaxStreams < st.remoteBidiUnsentMaxStreams then
      { st with conn := { st.conn with remoteBidiMaxStreams := st.remoteBidiUnsentMaxStreams } }
    else st
  else if st.conn.remoteUniMaxStreams < st.remoteUniUnsentMaxStreams then
    { st with conn := { st.conn with remoteUniMaxStreams := st.remoteUniUnsentMaxStreams } }
  else st

def recvMaxStreams (st : Streams) (bidi : Bool) (n : Nat) : Except Stop Streams :=
  if maxStreams < n then .error (.error .frameEncoding)
  else if bidi then .ok { st with conn := { st.conn with localBidiMaxStreams := max st.conn.localBidiMaxStreams n } }
  else .ok { st with localUniMaxStreams := max st.localUniMaxStreams n }

def callbackReturns (st : Streams) : Except Stop Streams :=
  let idle := { st with conn := { st.conn with ctl := .idle }, after := .nothing }
  match st.after with
  | .nothing => st.lift (Rx.callbackReturns st.conn)
  | .stopSending fr env =>
      match idle.conn.strms fr.streamId with
      | none => .error .notEnabled
      | some strm => idle.recvStopSendingOn strm fr env
  | .maxStreamData fr env =>
      match idle.conn.strms fr.streamId with
      | none => .error .notEnabled
      | some strm => idle.recvMaxStreamDataOn strm fr env
  | .ackStream streamId =>
      match idle.conn.strms streamId with
      | none => .error .notEnabled
      | some strm => .ok { idle with conn := idle.conn.closeStreamIfShutRdwr strm }

end Streams

/-- The five frames that may open a stream. -/
inductive Frame
  | stream (fr : StreamFrame)
  | resetStream (fr : ResetStream)
  | stopSending (fr : StopSending)
  | maxStreamData (fr : MaxStreamData)
  | streamDataBlocked (fr : StreamDataBlocked)

def Frame.streamId : Frame → Nat
  | .stream fr => fr.streamId
  | .resetStream fr => fr.streamId
  | .stopSending fr => fr.streamId
  | .maxStreamData fr => fr.streamId
  | .streamDataBlocked fr => fr.streamId

/-- The events in the life of the streams. `rx` are those of the receiving side that are no frames. -/
inductive Event
  | recv (fr : Frame) (env : RecvEnv)
  | callbackReturns
  | ackStream (streamId : Nat) (txDataFinAcked registered advances : Bool)
  | ackResetStream (streamId : Nat)
  | writeStopSending (streamId : Nat)
  | openBidiStream
  | openUniStream
  | extendMaxStreams (bidi : Bool) (n : Nat)
  | sendMaxStreams (bidi : Bool)
  | recvMaxStreams (bidi : Bool) (n : Nat)
  | shutdownStreamRead (streamId : Nat)
  | sendSide (streamId : Nat) (shutWr resetStream resetStreamAcked txDataFinAcked : Bool)
  | extendMaxOffset (datalen : Nat)
  | extendMaxStreamOffset (streamId datalen : Nat)
  | sendMaxData (ts smoothedRtt : Nat)
  | sendMaxStreamData (streamId delta : Nat)

def Streams.recv (st : Streams) (fr : Frame) (env : RecvEnv) : Except Stop Streams :=
  match fr with
  | .stream fr => st.recvStream fr env
  | .resetStream fr => st.recvResetStream fr env
  | .stopSending fr => st.recvStopSending fr env
  | .maxStreamData fr => st.recvMaxStreamData fr env
  | .streamDataBlocked fr => st.recvStreamDataBlocked fr env

def Streams.whenIdle (st : Streams) (next : Except Stop Streams) : Except Stop Streams :=
  match st.conn.ctl with
  | .idle => next
  | _ => .error .notEnabled

def Streams.step (st : Streams) : Event → Except Stop Streams
  | .recv fr env => st.whenIdle (st.recv fr env)
  | .callbackReturns => st.callbackReturns
  | .ackStream streamId txDataFinAcked registered advances =>
      st.whenIdle (.ok (st.ackStream streamId txDataFinAcked registered advances))
  | .ackResetStream streamId => st.whenIdle (.ok (st.ackResetStream streamId))
  | .writeStopSending streamId => st.whenIdle (.ok (st.writeStopSending streamId))
  | .openBidiStream => .ok st.openBidiStream
  | .openUniStream => .ok st.openUniStream
  | .extendMaxStreams bidi n => .ok (st.extendMaxStreams bidi n)
  | .sendMaxStreams bidi => st.whenIdle (.ok (st.sendMaxStreams bidi))
  | .recvMaxStreams bidi n => st.whenIdle (st.recvMaxStreams bidi n)
  | .shutdownStreamRead streamId => st.lift (Rx.step st.conn (.shutdownStreamRead streamId))
  | .sendSide streamId shutWr resetStream resetStreamAcked txDataFinAcked =>
      st.lift (Rx.step st.conn (.sendSide streamId shutWr resetStream resetStreamAcked txDataFinAcked))
  | .extendMaxOffset datalen => st.lift (Rx.step st.conn (.extendMaxOffset datalen))
  | .extendMaxStreamOffset streamId datalen => st.lift (Rx.step st.conn (.extendMaxStreamOffset streamId datalen))
  | .sendMaxData ts smoothedRtt => st.lift (Rx.step st.conn (.sendMaxData ts smoothedRtt))
  | .sendMaxStreamData streamId delta => st.lift (Rx.step st.conn (.sendMaxStreamData streamId delta))

end Zngtcp2.Rx
