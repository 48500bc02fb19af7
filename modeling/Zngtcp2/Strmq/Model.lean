import Zngtcp2.Pq.Model

namespace Zngtcp2

/-- `NGTCP2_PQ_BAD_INDEX` -/
def badIndex : Nat :=
  uint64Max

/-- `cycle_less`, on stream IDs -/
def cycleLess (cycle : Nat → Nat) (a b : Nat) : Bool :=
  if cycle a = cycle b then a < b else sub64 (cycle b) (cycle a) ≤ 1

/-- The queue `conn.tx.strmq` of stream IDs, the field `cycle` of each stream, and the streams that exist. No function
reads the last field, the number of frames with data that each stream has sent from the queue. -/
structure Strmq where
  pq : Pq Nat
  cycle : Nat → Nat
  strms : Nat → Bool
  sent : Nat → Nat

namespace Strmq

def init : Strmq :=
  ⟨.init (fun _ => 0) fun _ => badIndex, fun _ => 0, fun _ => false, fun _ => 0⟩

variable (s : Strmq)

/-- `ngtcp2_strm_is_tx_queued` -/
def isTxQueued (strm : Nat) : Bool :=
  s.pq.index strm ≠ badIndex

/-- `ngtcp2_conn_tx_strmq_first_cycle` -/
def firstCycle : Nat :=
  if s.pq.length = 0 then 0 else s.cycle (s.pq.q 0)

/-- `ngtcp2_conn_tx_strmq_top` -/
def top : Except Fault Nat :=
  s.pq.top

/-- `ngtcp2_conn_tx_strmq_pop` -/
def pop : Except Fault Strmq := do
  let strm ← s.top
  let pq ← s.pq.pop (cycleLess s.cycle)
  .ok { s with pq := { pq with index := Function.update pq.index strm badIndex } }

/-- `ngtcp2_conn_tx_strmq_push` -/
def push (strm : Nat) (alloc : Bool) : Rv × Strmq :=
  let (rv, pq) := s.pq.push (cycleLess s.cycle) strm alloc
  (rv, { s with pq := pq })

def withCycle (strm cycle : Nat) : Strmq :=
  { s with cycle := Function.update s.cycle strm cycle }

/-- The stream sends a frame with data. -/
def sends (strm : Nat) : Strmq :=
  { s with sent := Function.update s.sent strm (s.sent strm + 1) }

/-- What happens to the queue when a stream has something to send: in `conn_reset_stream`, `conn_stop_sending`,
`ngtcp2_conn_submit_stream_buf_versioned`, where a STREAM_DATA_BLOCKED frame finds no room in `conn_write_pkt`, and in
`rtb_reclaim_frame` and `rtb_reclaim_frame_on_retry`. -/
def schedule (strm : Nat) (alloc : Bool) : Rv × Strmq :=
  if s.isTxQueued strm then (.ok, s) else (s.withCycle strm s.firstCycle).push strm alloc

/-- `conn_extend_max_stream_offset`; `due` tells whether a MAX_STREAM_DATA frame should be sent. -/
def extendMaxStreamOffset (strm : Nat) (due alloc : Bool) : Rv × Strmq :=
  if !s.isTxQueued strm ∧ due then
    let s := if s.pq.length = 0 then s else s.withCycle strm (s.cycle (s.pq.q 0))
    (s.withCycle strm s.firstCycle).push strm alloc
  else (.ok, s)

/-- `ngtcp2_strm_init` -/
def openStream (strm : Nat) : Strmq :=
  { s with
    strms := Function.update s.strms strm true
    cycle := Function.update s.cycle strm 0
    pq := { s.pq with index := Function.update s.pq.index strm badIndex } }

def forget (strm : Nat) : Strmq :=
  { s with strms := Function.update s.strms strm false }

/-- `ngtcp2_conn_close_stream` after the callback, and `delete_strms_pq_each` -/
def closeStream (strm : Nat) : Except Fault Strmq :=
  if s.isTxQueued strm then do
    let pq ← s.pq.remove (cycleLess s.cycle) strm
    .ok ({ s with pq := pq }.forget strm)
  else .ok (s.forget strm)

/-- What an application, or the library on its behalf, may do to a stream at any time. -/
inductive Call
  | open (strm : Nat)
  | schedule (strm : Nat) (alloc : Bool)
  | extendMaxStreamOffset (strm : Nat) (due alloc : Bool)
  deriving DecidableEq, Repr

def Call.strm : Call → Nat
  | .open strm | .schedule strm _ | .extendMaxStreamOffset strm _ _ => strm

/-- A stream that exists is not opened again, and the others do not exist. -/
def call : Call → Strmq
  | .open strm => if s.strms strm then s else s.openStream strm
  | .schedule strm alloc => if s.strms strm then (s.schedule strm alloc).2 else s
  | .extendMaxStreamOffset strm due alloc => if s.strms strm then (s.extendMaxStreamOffset strm due alloc).2 else s

/-- What `conn_write_pkt` comes to with the stream: a frame finds no room, there is no data to send, or data has been
sent, with more to come or not. -/
inductive Found
  | noRoom
  | idle
  | data (more : Bool)
  deriving DecidableEq, Repr

/-- A turn of the loop: what the callback `stream_stop_sending` calls, if it is invoked, and what is found. -/
structure Turn where
  calls : List Call
  found : Found
  alloc : Bool
  deriving DecidableEq, Repr

/-- The body of the loop over the queue in `conn_write_pkt`. -/
def writeStrm (turn : Turn) : Except Fault Strmq := do
  let strm ← s.top
  let s := turn.calls.foldl call s
  match turn.found with
  | .noRoom => .ok s
  | .idle => s.pop
  | .data false => (s.sends strm).pop
  | .data true => do
      let s ← (s.sends strm).pop
      .ok ((s.withCycle strm ((s.cycle strm + 1) % 2 ^ 64)).push strm turn.alloc).2

/-- `retry` is a stream that `conn_retry_early_payloadlen` takes out, since it has no frames. -/
inductive Event
  | call (call : Call)
  | close (strm : Nat)
  | retry
  | turn (turn : Turn)
  deriving DecidableEq, Repr

def step : Event → Except Fault Strmq
  | .call call => .ok (s.call call)
  | .close strm => s.closeStream strm
  | .retry => s.pop
  | .turn turn => s.writeStrm turn

/-- Stream IDs are variable-length integers; a stream that is closed exists, and the loop ends with the queue. -/
def Allowed : Event → Prop
  | .call call => call.strm < 2 ^ 62
  | .close strm => s.strms strm = true
  | .retry => s.pq.length ≠ 0
  | .turn turn => s.pq.length ≠ 0 ∧ ∀ call ∈ turn.calls, call.strm < 2 ^ 62

instance decidableAllowed : (ev : Event) → Decidable (s.Allowed ev)
  | .call _ => inferInstanceAs (Decidable (_ < _))
  | .close _ => inferInstanceAs (Decidable (_ = _))
  | .retry => inferInstanceAs (Decidable (_ ≠ _))
  | .turn _ => inferInstanceAs (Decidable (_ ∧ _))

end Strmq

end Zngtcp2
