import Zngtcp2.Rx.Model

namespace Zngtcp2.Rx

open Reorder

namespace Conn

/-- Finds the stream of a frame. A remote stream seen for the first time is opened, and processing
goes on when `stream_open` returns; frames for closed streams are ignored by `ignore`. -/
def findOrOpen (conn : Conn) (streamId : Nat) (env : RecvEnv) (pending : Pending)
    (ignore : Conn → Except Stop Conn) (found : Strm → Except Stop Conn) : Except Stop Conn :=
  match conn.strms streamId with
  | some strm => found strm
  | none =>
      if conn.localStream streamId then ignore conn
      else if streamId ∈ conn.opened then ignore conn
      else if env.strmMem = false then .error (.error .nomem)
      else
        let conn := conn.initStream streamId
        .ok { conn with calls := conn.calls ++ [.streamOpen streamId], ctl := .streamOpen pending }

def recvStream (conn : Conn) (fr : StreamFrame) (env : RecvEnv) : Except Stop Conn :=
  match conn.checkStreamId fr.streamId .streamState with
  | .ok =>
      if maxVarint < fr.offset + fr.data.length then .error (.error .flowControl)
      else conn.findOrOpen fr.streamId env (.stream fr env) (fun conn => conn.glitch env.ts)
        (fun strm => conn.recvStreamOn strm fr false env)
  | rv => .error (.error rv)

/-- `conn_recv_reset_stream` from the point where the stream is known, up to the callback. -/
def recvResetStreamOn (conn : Conn) (strm : Strm) (fr : ResetStream) (env : RecvEnv) : Except Stop Conn :=
  if strm.shutRd ∧ strm.lastOffset ≠ fr.finalSize then .error (.error .finalSize)
  else if strm.shutRd = false ∧ strm.lastOffset > fr.finalSize then .error (.error .finalSize)
  else if strm.resetStreamRecved then conn.glitch env.ts
  else if strm.maxOffset < fr.finalSize then .error (.error .flowControl)
  else
    let datalen := fr.finalSize - strm.lastOffset
    if conn.maxDataViolated datalen then .error (.error .flowControl)
    else .ok { conn with calls := conn.calls ++ [.streamReset fr.streamId], ctl := .streamReset fr datalen }

/-- What follows a `stream_reset` that returned 0. -/
def returnStreamReset (conn : Conn) (strm : Strm) (fr : ResetStream) (datalen : Nat) : Conn :=
  let conn := if strm.stopSending then conn else conn.credit strm.streamId (strm.lastOffset - strm.rxOffset)
  let conn := { conn with offset := conn.offset + datalen }.credit strm.streamId datalen
  let strm := { strm with lastOffset := fr.finalSize, shutRd := true, resetStreamRecved := true }
  { (conn.setStrm strm).closeStreamIfShutRdwr strm with ctl := .idle }

def recvResetStream (conn : Conn) (fr : ResetStream) (env : RecvEnv) : Except Stop Conn :=
  match conn.checkStreamId fr.streamId .proto with
  | .ok =>
      if maxVarint < fr.finalSize then .error (.error .flowControl)
      else if conn.strms fr.streamId = none ∧ conn.localStream fr.streamId = false ∧ fr.streamId ∉ conn.opened ∧
          (conn.initialStreamRxOffset fr.streamId < fr.finalSize ∨ conn.maxDataViolated fr.finalSize) then
        .error (.error .flowControl)
      else conn.findOrOpen fr.streamId env (.reset fr env) (fun conn => conn.glitch env.ts)
        (fun strm => conn.recvResetStreamOn strm fr env)
  | rv => .error (.error rv)

def recvStreamDataBlockedOn (conn : Conn) (strm : Strm) (fr : StreamDataBlocked) : Except Stop Conn :=
  if strm.maxOffset < fr.offset then .error (.error .flowControl)
  else if fr.offset ≤ strm.lastOffset then .ok conn
  else if strm.shutRd then .error (.error .finalSize)
  else if conn.maxDataViolated (fr.offset - strm.lastOffset) then .error (.error .flowControl)
  else .ok ((conn.account strm fr.offset).setStrm { strm with lastOffset := fr.offset })

def recvStreamDataBlocked (conn : Conn) (fr : StreamDataBlocked) (env : RecvEnv) : Except Stop Conn :=
  match conn.checkStreamId fr.streamId .streamState with
  | .ok =>
      conn.findOrOpen fr.streamId env (.blocked fr) (fun conn => .ok conn)
        (fun strm => conn.recvStreamDataBlockedOn strm fr)
  | rv => .error (.error rv)

/-- The part of `conn_shutdown_stream_read` that takes effect. -/
def stopReading (conn : Conn) (strm : Strm) : Conn :=
  let conn := conn.credit strm.streamId (strm.lastOffset - strm.rxOffset)
  let r := { strm with stopSending := true }.discardReorderedData
  (conn.release r.2).setStrm r.1

/-- The calls of `ngtcp2_conn_shutdown_stream_read` on a stream that take effect. -/
def stopsReading (strm : Strm) : Bool :=
  !(strm.stopSending || strm.resetStreamRecved) && !(strm.shutRd && strm.rxOffset = strm.lastOffset)

def shutdownStreamRead (conn : Conn) (streamId : Nat) : Conn :=
  if bidiStream streamId = false ∧ conn.localStream streamId then conn
  else
    match conn.strms streamId with
    | none => conn
    | some strm => if stopsReading strm then conn.stopReading strm else conn

def extendMaxStreamOffset (conn : Conn) (streamId datalen : Nat) : Conn :=
  if bidiStream streamId = false ∧ conn.localStream streamId then conn
  else
    match conn.strms streamId with
    | none => conn
    | some strm =>
        conn.setStrm { strm with
          unsentMaxOffset :=
            if datalen > maxVarint ∨ strm.unsentMaxOffset > maxVarint - datalen then maxVarint
            else strm.unsentMaxOffset + datalen }

/-- MAX_STREAM_DATA is sent for a stream, with `delta` added by the window tuning. -/
def sendMaxStreamData (conn : Conn) (streamId delta : Nat) : Conn :=
  match conn.strms streamId with
  | none => conn
  | some strm =>
      let maxOffset := min (strm.unsentMaxOffset + delta) maxVarint
      conn.setStrm { strm with maxOffset := maxOffset, unsentMaxOffset := maxOffset }

def shouldSendMaxData (conn : Conn) : Bool :=
  conn.window < 4 * sub64 conn.unsentMaxOffset conn.maxOffset % 2 ^ 64

/-- The MAX_DATA part of `conn_write_pkt`, with its window tuning. -/
def sendMaxData (conn : Conn) (ts smoothedRtt : Nat) : Conn :=
  if conn.shouldSendMaxData then
    let tune := 0 < conn.maxWindow ∧ (∃ last ∈ conn.lastMaxDataTs, sub64 ts last < 2 * smoothedRtt) ∧
      conn.window < conn.maxWindow
    let target := min (2 * conn.window % 2 ^ 64) conn.maxWindow
    let delta := sub64 target conn.window
    let delta := if (conn.unsentMaxOffset + delta) % 2 ^ 64 > maxVarint then sub64 maxVarint conn.unsentMaxOffset
      else delta
    if tune then
      { conn with
        window := target
        lastMaxDataTs := some ts
        maxOffset := conn.unsentMaxOffset + delta
        unsentMaxOffset := conn.unsentMaxOffset + delta }
    else { conn with lastMaxDataTs := some ts, maxOffset := conn.unsentMaxOffset }
  else conn

def openBidiStream (conn : Conn) : Conn :=
  if conn.localBidiMaxStreams < ordStreamId conn.localBidiNextStreamId then conn
  else { conn.initStream conn.localBidiNextStreamId with localBidiNextStreamId := conn.localBidiNextStreamId + 4 }

/-- The sending side of a stream moves on: what the receiving side reads of it changes, and outside
of callbacks (an acknowledgement has been processed) the stream may close. -/
def sendSide (conn : Conn) (streamId : Nat) (shutWr resetStream resetStreamAcked txDataFinAcked : Bool) : Conn :=
  match conn.strms streamId with
  | none => conn
  | some strm =>
      let strm := { strm with
        shutWr := shutWr
        resetStream := resetStream
        resetStreamAcked := resetStreamAcked
        txDataFinAcked := txDataFinAcked }
      match conn.ctl with
      | .idle => (conn.setStrm strm).closeStreamIfShutRdwr strm
      | _ => conn.setStrm strm

end Conn

/-- The events of the receiving side. `callbackReturns` is the return, with 0, of the callback the
application is in; the application calls may come at any time, also from inside a callback. -/
inductive Input
  | recvStream (fr : StreamFrame) (env : RecvEnv)
  | recvResetStream (fr : ResetStream) (env : RecvEnv)
  | recvStreamDataBlocked (fr : StreamDataBlocked) (env : RecvEnv)
  | callbackReturns
  | shutdownStreamRead (streamId : Nat)
  | extendMaxOffset (datalen : Nat)
  | extendMaxStreamOffset (streamId datalen : Nat)
  | openBidiStream
  | sendSide (streamId : Nat) (shutWr resetStream resetStreamAcked txDataFinAcked : Bool)
  | sendMaxData (ts smoothedRtt : Nat)
  | sendMaxStreamData (streamId delta : Nat)

/-- Packets are received and written outside of callbacks only. -/
def whenIdle (conn : Conn) (next : Except Stop Conn) : Except Stop Conn :=
  match conn.ctl with
  | .idle => next
  | _ => .error .notEnabled

theorem whenIdle_ok {conn conn' : Conn} {next : Except Stop Conn} (h : whenIdle conn next = .ok conn') :
    conn.ctl = .idle ∧ next = .ok conn' := by
  unfold whenIdle at h
  split at h
  · rename_i hctl
    exact ⟨hctl, h⟩
  · cases h

def callbackReturns (conn : Conn) : Except Stop Conn :=
  match conn.ctl with
  | .idle => .error .notEnabled
  | .streamOpen pending =>
      let conn := { conn with ctl := .idle }
      match pending with
      | .stream fr env =>
          match conn.strms fr.streamId with
          | none => .error .notEnabled
          | some strm => conn.recvStreamOn strm fr true env
      | .reset fr env =>
          match conn.strms fr.streamId with
          | none => .error .notEnabled
          | some strm => conn.recvResetStreamOn strm fr env
      | .blocked fr =>
          match conn.strms fr.streamId with
          | none => .error .notEnabled
          | some strm => conn.recvStreamDataBlockedOn strm fr
  | .recvStreamData streamId rxOffset popping =>
      match conn.strms streamId with
      | none => .error .notEnabled
      | some strm => conn.returnRecvStreamData strm rxOffset popping
  | .streamReset fr datalen =>
      match conn.strms fr.streamId with
      | none => .error .notEnabled
      | some strm => .ok (conn.returnStreamReset strm fr datalen)
  | .other => .ok { conn with ctl := .idle }

def step (conn : Conn) : Input → Except Stop Conn
  | .recvStream fr env => whenIdle conn (conn.recvStream fr env)
  | .recvResetStream fr env => whenIdle conn (conn.recvResetStream fr env)
  | .recvStreamDataBlocked fr env => whenIdle conn (conn.recvStreamDataBlocked fr env)
  | .callbackReturns => callbackReturns conn
  | .shutdownStreamRead streamId => .ok (conn.shutdownStreamRead streamId)
  | .extendMaxOffset datalen => .ok (conn.extendMaxOffset datalen)
  | .extendMaxStreamOffset streamId datalen => .ok (conn.extendMaxStreamOffset streamId datalen)
  | .openBidiStream => .ok conn.openBidiStream
  | .sendSide streamId shutWr resetStream resetStreamAcked txDataFinAcked =>
      .ok (conn.sendSide streamId shutWr resetStream resetStreamAcked txDataFinAcked)
  | .sendMaxData ts smoothedRtt => whenIdle conn (.ok (conn.sendMaxData ts smoothedRtt))
  | .sendMaxStreamData streamId delta => whenIdle conn (.ok (conn.sendMaxStreamData streamId delta))

end Zngtcp2.Rx
