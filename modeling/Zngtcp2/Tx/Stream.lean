import Zngtcp2.Lib.Run
import Zngtcp2.Strm.Queue
import Mathlib.Logic.Function.Basic

namespace Zngtcp2.StreamTx

open Strm TxStrm TxFrame

/-- A packet in flight with its STREAM frames, each with the id of its stream. -/
structure Entry where
  frames : List (Nat × TxFrame)
  lostRetransmitted : Bool
  ptoReclaimed : Bool
  deriving DecidableEq, Repr

/-- The entry still stands for its frames. -/
def Entry.live (e : Entry) : Bool :=
  !e.lostRetransmitted && !e.ptoReclaimed

abbrev Strms := Nat → Option TxStrm

/-- The sending side of the streams of a connection. `rtb` has the newest packet first, `opened` the
ids of all streams there have been. -/
structure State where
  strms : Strms
  opened : List Nat
  rtb : List Entry
  initialPktProcessed : Bool
  recvRetry : Bool

def State.new : State :=
  ⟨fun _ => none, [], [], false, false⟩

def State.set (s : State) (sid : Nat) (strm : TxStrm) : State :=
  { s with strms := Function.update s.strms sid (some strm) }

/-- A zero-length frame without FIN. -/
def empty (f : TxFrame) : Bool :=
  f.datalen = 0 && !f.fin

/-- The frame for data that is accepted for the stream. -/
def newFrame (s : TxStrm) (data : List UInt8) (fin : Bool) : TxFrame :=
  ⟨s.offset, fin, [], if data = [] then none else some data⟩

def accept (s : TxStrm) (datalen : Nat) (fin : Bool) : TxStrm :=
  { s with offset := s.offset + datalen, anySent := true, shutWr := s.shutWr || fin }

/-- What the acknowledgement of a frame does to its stream. -/
def ackFrame (s : TxStrm) (f : TxFrame) : TxStrm :=
  { s with
    anyAcked := true
    finAcked := s.finAcked || f.fin
    acked := (s.acked.ackData f.offset f.datalen).2 }

/-- The condition under which `rtb_reclaim_frame` queues a STREAM frame again. -/
def reclaims (strm : TxStrm) (fr : TxFrame) : Bool :=
  wanted strm.acked fr || fr.fin ||
    (decide (fr.offset = 0) && decide (fr.datalen = 0) && decide (strm.offset = 0) && !strm.shutWr && !strm.anyAcked)

/-- `ngtcp2_strm_streamfrq_push` on a stream of the connection. -/
def pushFrame (strms : Strms) (sid : Nat) (strm : TxStrm) (fr : TxFrame) : Except Stop Strms := do
  let queue ← streamfrqPush strm.queue fr
  .ok (Function.update strms sid (some { strm with queue := queue }))

/-- `rtb_reclaim_frame` for the STREAM frames of an entry. -/
def reclaimFrame : List (Nat × TxFrame) → Strms → Except Stop Strms
  | [], strms => .ok strms
  | (sid, fr) :: frs, strms =>
      match strms sid with
      | none => reclaimFrame frs strms
      | some strm =>
          if strm.resetStream || !reclaims strm fr then reclaimFrame frs strms
          else do
            let strms ← pushFrame strms sid strm fr
            reclaimFrame frs strms

/-- `rtb_reclaim_frame_on_retry`, which asks neither for a reset nor for what is acknowledged. -/
def reclaimFrameOnRetry : List (Nat × TxFrame) → Strms → Except Stop Strms
  | [], strms => .ok strms
  | (sid, fr) :: frs, strms =>
      match strms sid with
      | none => reclaimFrameOnRetry frs strms
      | some strm => do
          let strms ← pushFrame strms sid strm fr
          reclaimFrameOnRetry frs strms

/-- `ngtcp2_strm_is_all_tx_data_fin_acked`. -/
def allTxDataFinAcked (strm : TxStrm) : Bool :=
  strm.finAcked && decide (strm.acked.ackedOffset = strm.offset)

/-- `process_acked_pkt`. The receiving sides of the streams in `rxDone` are shut with all data
received, so that `ngtcp2_conn_close_stream_if_shut_rdwr` closes them. -/
def processAckedPkt (rxDone : List Nat) : List (Nat × TxFrame) → Strms → Except Stop Strms
  | [], strms => .ok strms
  | (sid, fr) :: frs, strms =>
      match strms sid with
      | none => processAckedPkt rxDone frs strms
      | some strm =>
          let rv := (strm.acked.ackData fr.offset fr.datalen).1
          let strm := ackFrame strm fr
          if rv ≠ .ok then .error (.failed rv)
          else if sid ∈ rxDone ∧ strm.shutWr ∧ (strm.resetStream || allTxDataFinAcked strm) then
            processAckedPkt rxDone frs (Function.update strms sid none)
          else processAckedPkt rxDone frs (Function.update strms sid (some strm))

/-- `conn->tx.strmq` is empty. -/
def strmqEmpty (s : State) : Bool :=
  s.opened.all (fun sid => (s.strms sid).all (fun strm => decide (strm.queue = [])))

/-- A packet under construction: the connection and the STREAM frames written so far. -/
abbrev Pkt := State × List (Nat × TxFrame)

/-- One round of the loop of `conn_write_pkt` over `conn->tx.strmq`; `left` bytes of data fit. -/
def writeQueued (pkt : Pkt) (sid left : Nat) : Except Stop Pkt :=
  match pkt.1.strms sid with
  | none => .ok pkt
  | some strm =>
      if strm.queue = [] then .ok pkt
      else do
        match ← strm.unackedOffset strm.queue with
        | none => .ok (pkt.1.set sid { strm with queue := [] }, pkt.2)
        | some _ =>
            let (res, queue) ← strm.streamfrqPop left
            .ok (pkt.1.set sid { strm with queue := queue }, pkt.2 ++ res.toList.map (sid, ·))

def writeRounds : List (Nat × Nat) → Pkt → Except Stop Pkt
  | [], pkt => .ok pkt
  | (sid, left) :: rounds, pkt => do
      let pkt ← writeQueued pkt sid left
      writeRounds rounds pkt

/-- `ngtcp2_conn_write_stream` takes `data`, with `fin` on the frame if FIN was asked for and nothing
is left over. -/
def writes (strm : TxStrm) (data : List UInt8) (fin : Bool) : Bool :=
  !strm.shutWr && (data ≠ [] || fin || !strm.anySent) && decide (strm.offset + data.length ≤ maxVarint)

/-- New stream data goes into the packet when no frame waits for retransmission. -/
def writeNew (pkt : Pkt) : Option (Nat × List UInt8 × Bool) → Pkt
  | none => pkt
  | some (sid, data, fin) =>
      match pkt.1.strms sid with
      | none => pkt
      | some strm =>
          if writes strm data fin && strmqEmpty pkt.1 then
            (pkt.1.set sid (accept strm data.length fin), pkt.2 ++ [(sid, newFrame strm data fin)])
          else pkt

/-- A packet with STREAM frames is entered into the retransmission buffer. -/
def finishPkt (pkt : Pkt) : State :=
  if pkt.2 = [] then pkt.1 else { pkt.1 with rtb := ⟨pkt.2, false, false⟩ :: pkt.1.rtb }

/-- `ngtcp2_conn_submit_stream_buf` takes `data`. -/
def submits (strm : TxStrm) (data : List UInt8) (fin : Bool) : Bool :=
  !strm.shutWr && (data ≠ [] || fin) && decide (strm.offset + data.length ≤ maxVarint)

def shutdownStreamWrite (strm : TxStrm) : TxStrm :=
  if strm.resetStream || allTxDataFinAcked strm then strm
  else { strm with shutWr := true, resetStream := true, queue := [] }

def recvStopSending (strm : TxStrm) : TxStrm :=
  { strm with resetStream := strm.resetStream || !allTxDataFinAcked strm, shutWr := true, queue := [] }

inductive Input
  | openStream (sid : Nat) (writable : Bool)
  | send (rounds : List (Nat × Nat)) (new : Option (Nat × List UInt8 × Bool))
  | submit (sid : Nat) (data : List UInt8) (fin : Bool)
  | acked (i : Nat) (rxDone : List Nat)
  | lost (i : Nat)
  | pto (i : Nat)
  | expired (i : Nat)
  | retry
  | shutdownWrite (sid : Nat)
  | stopSending (sid : Nat)
  | close (sid : Nat)
  deriving DecidableEq, Repr

/-- The frames that a Retry packet puts back into the queues. -/
def retryFrames (rtb : List Entry) : List (Nat × TxFrame) :=
  (rtb.filter (fun e => !e.ptoReclaimed)).flatMap Entry.frames

def step (s : State) : Input → Except Stop State
  | .openStream sid writable =>
      if sid ∈ s.opened then .ok s
      else
        let strm := { TxStrm.new .stream with shutWr := !writable, finAcked := !writable }
        .ok { s.set sid strm with opened := sid :: s.opened }
  | .send rounds new => do
      let pkt ← writeRounds rounds (s, [])
      .ok (finishPkt (writeNew pkt new))
  | .submit sid data fin =>
      match s.strms sid with
      | none => .ok s
      | some strm =>
          if submits strm data fin then do
            let queue ← streamfrqPush strm.queue (newFrame strm data fin)
            .ok (s.set sid { accept strm data.length fin with queue := queue })
          else .ok s
  | .acked i rxDone =>
      match s.rtb[i]? with
      | none => .ok s
      | some e => do
          let strms ← processAckedPkt rxDone e.frames s.strms
          .ok { s with strms := strms, rtb := s.rtb.eraseIdx i, initialPktProcessed := true }
  | .lost i =>
      match s.rtb[i]? with
      | none => .ok s
      | some e =>
          if e.lostRetransmitted then .ok s
          else do
            let strms ← (if e.ptoReclaimed then .ok s.strms else reclaimFrame e.frames s.strms)
            .ok { s with
              strms := strms
              rtb := s.rtb.set i { e with lostRetransmitted := true }
              initialPktProcessed := true }
  | .pto i =>
      match s.rtb[i]? with
      | none => .ok s
      | some e =>
          if e.live then do
            let strms ← reclaimFrame e.frames s.strms
            .ok { s with strms := strms, rtb := s.rtb.set i { e with ptoReclaimed := true } }
          else .ok s
  | .expired i =>
      match s.rtb[i]? with
      | none => .ok s
      | some e => .ok (if e.lostRetransmitted then { s with rtb := s.rtb.eraseIdx i } else s)
  | .retry =>
      if s.initialPktProcessed || s.recvRetry then .ok s
      else if s.rtb.any Entry.lostRetransmitted then .error (.fault .assertion)
      else do
        let strms ← reclaimFrameOnRetry (retryFrames s.rtb) s.strms
        .ok { s with strms := strms, rtb := [], recvRetry := true }
  | .shutdownWrite sid =>
      match s.strms sid with
      | none => .ok s
      | some strm => .ok (s.set sid (shutdownStreamWrite strm))
  | .stopSending sid =>
      match s.strms sid with
      | none => .ok s
      | some strm => .ok (s.set sid (recvStopSending strm))
  | .close sid => .ok { s with strms := Function.update s.strms sid none }

end Zngtcp2.StreamTx
