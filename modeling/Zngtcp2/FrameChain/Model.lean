import Mathlib.Logic.Function.Basic
import Zngtcp2.Buf

namespace Zngtcp2.FrameChain

/-- What must not happen: a freed binder is read, or an assertion fails. -/
inductive Stop
  | useAfterFree
  | assertion
  deriving DecidableEq

/-- The control frames with what decides about their retransmission. -/
inductive Fr
  | newToken (token : List UInt8)
  | resetStream (streamId : Nat)
  | stopSending (streamId : Nat)
  | maxStreamsBidi (maxStreams : Nat)
  | maxStreamsUni (maxStreams : Nat)
  | maxStreamData (streamId maxStreamData : Nat)
  | maxData (maxData : Nat)
  | streamDataBlocked (streamId offset : Nat)
  | dataBlocked (offset : Nat)
  | newConnectionId (seq : Nat)
  | retireConnectionId (seq : Nat)
  | handshakeDone
  deriving DecidableEq

def Fr.isNewConnectionId : Fr → Bool
  | .newConnectionId _ => true
  | _ => false

/-- `ngtcp2_frame_chain_binder` -/
structure Binder where
  refcount : Nat := 0
  acked : Bool := false
  deriving DecidableEq

/-- The binders by their addresses; a cell without a binder is free. `next` is an address that was never used. -/
structure Heap where
  cell : Nat → Option Binder := fun _ => none
  next : Nat := 0

/-- `ngtcp2_frame_chain`. The copies of one frame have its `id`, which the code does not know, and `copy` tells
whether `rtb_reclaim_frame` made this one. -/
structure Frc where
  fr : Fr
  binder : Option Nat := none
  id : Nat
  copy : Bool := false
  deriving DecidableEq

/-- What the rest of the connection says about the frames. The first four are false if there is no such stream. -/
structure Conn where
  requireRetransmitResetStream : Nat → Bool
  requireRetransmitStopSending : Nat → Bool
  requireRetransmitMaxStreamData : Nat → Nat → Bool
  requireRetransmitStreamDataBlocked : Nat → Nat → Bool
  remoteBidiMaxStreams : Nat
  remoteUniMaxStreams : Nat
  rxMaxOffset : Nat
  txMaxOffset : Nat

section Binders

variable (heap : Heap)

def Heap.set (b : Nat) (binder : Option Binder) : Heap :=
  { heap with cell := Function.update heap.cell b binder }

/-- Whether the frame has a binder with NGTCP2_FRAME_CHAIN_BINDER_FLAG_ACK. -/
def Heap.isAcked (f : Frc) : Except Stop Bool :=
  match f.binder with
  | none => .ok false
  | some b =>
      match heap.cell b with
      | none => .error .useAfterFree
      | some binder => .ok binder.acked

/-- `ngtcp2_frame_chain_objalloc_del` -/
def Heap.del (f : Frc) : Except Stop Heap :=
  match f.binder with
  | none => .ok heap
  | some b =>
      match heap.cell b with
      | none => .error .useAfterFree
      | some binder =>
          .ok (heap.set b (if binder.refcount = 1 then none else some { binder with refcount := binder.refcount - 1 }))

/-- `ngtcp2_frame_chain_list_objalloc_del` -/
def Heap.listDel : List Frc → Heap → Except Stop Heap
  | [], heap => .ok heap
  | f :: fs, heap =>
      match heap.del f with
      | .error e => .error e
      | .ok heap => Heap.listDel fs heap

/-- `ngtcp2_frame_chain_binder_new` and the link to the first frame. -/
def Heap.newBinder : Heap where
  cell := Function.update heap.cell heap.next (some { refcount := 1 })
  next := heap.next + 1

/-- The end of `ngtcp2_bind_frame_chains` for the binder `b` of the first frame. -/
def Heap.addRef (b : Nat) : Except Stop Heap :=
  match heap.cell b with
  | none => .error .useAfterFree
  | some binder => .ok (heap.set b (some { binder with refcount := binder.refcount + 1 }))

/-- Sets NGTCP2_FRAME_CHAIN_BINDER_FLAG_ACK if the frame has a binder. -/
def Heap.setAcked (f : Frc) : Heap :=
  match f.binder with
  | none => heap
  | some b => heap.set b ((heap.cell b).map fun binder => { binder with acked := true })

/-- `ngtcp2_bind_frame_chains`: the two frames, or `none` if there is no memory for a binder. -/
def bindFrameChains (memory : Bool) (a b : Frc) : Except Stop (Option (Frc × Frc × Heap)) :=
  if b.binder ≠ none then .error .assertion
  else
    match a.binder with
    | some i =>
        match heap.addRef i with
        | .error e => .error e
        | .ok heap => .ok (some (a, { b with binder := some i }, heap))
    | none =>
        if memory = false then .ok none
        else
          match heap.newBinder.addRef heap.next with
          | .error e => .error e
          | .ok heap' => .ok (some ({ a with binder := some heap.next }, { b with binder := some heap.next }, heap'))

end Binders

section Reclaim

/-- The frames that `rtb_reclaim_frame` does not pass over. -/
def Conn.requireRetransmit (conn : Conn) : Fr → Bool
  | .resetStream streamId => conn.requireRetransmitResetStream streamId
  | .stopSending streamId => conn.requireRetransmitStopSending streamId
  | .maxStreamData streamId maxStreamData => conn.requireRetransmitMaxStreamData streamId maxStreamData
  | .streamDataBlocked streamId offset => conn.requireRetransmitStreamDataBlocked streamId offset
  | _ => true

/-- What is left for the allocations of one frame: for the copy and for a binder, for the copy only, or nothing. -/
inductive Memory
  | both
  | copyOnly
  | nothing
  deriving DecidableEq

/-- What the loop of `rtb_reclaim_frame` leaves: the frames of the packet, the copies that it queued, a copy that
it lost, and the return value. -/
structure Reclaimed where
  frames : List Frc
  copies : List Frc
  lost : List Frc
  heap : Heap
  rv : Rv

/-- The loop of `rtb_reclaim_frame`; `memory i` is what there is for the frame `i`. -/
def reclaimLoop (conn : Conn) : (Nat → Memory) → List Frc → Heap → Except Stop Reclaimed
  | _, [], heap => .ok ⟨[], [], [], heap, .ok⟩
  | memory, f :: fs, heap =>
      match heap.isAcked f with
      | .error e => .error e
      | .ok acked =>
          if acked = true ∨ conn.requireRetransmit f.fr = false then
            match reclaimLoop conn (fun i => memory (i + 1)) fs heap with
            | .error e => .error e
            | .ok r => .ok { r with frames := f :: r.frames }
          else if memory 0 = .nothing then .ok ⟨f :: fs, [], [], heap, .nomem⟩
          else
            let nfrc : Frc := { fr := f.fr, id := f.id, copy := true }
            match bindFrameChains heap (memory 0 = .both) f nfrc with
            | .error e => .error e
            | .ok none => .ok ⟨f :: fs, [], [nfrc], heap, .nomem⟩
            | .ok (some (f, nfrc, heap)) =>
                match reclaimLoop conn (fun i => memory (i + 1)) fs heap with
                | .error e => .error e
                | .ok r => .ok { r with frames := f :: r.frames, copies := nfrc :: r.copies }

end Reclaim

section Write

/-- The frames that `conn_write_pkt` does not drop. -/
def Conn.sendable (conn : Conn) : Fr → Bool
  | .resetStream streamId => conn.requireRetransmitResetStream streamId
  | .stopSending streamId => conn.requireRetransmitStopSending streamId
  | .maxStreamsBidi maxStreams => conn.remoteBidiMaxStreams ≤ maxStreams
  | .maxStreamsUni maxStreams => conn.remoteUniMaxStreams ≤ maxStreams
  | .maxStreamData streamId maxStreamData => conn.requireRetransmitMaxStreamData streamId maxStreamData
  | .maxData maxData => conn.rxMaxOffset ≤ maxData
  | .streamDataBlocked streamId offset => conn.requireRetransmitStreamDataBlocked streamId offset
  | .dataBlocked offset => offset = conn.txMaxOffset
  | _ => true

/-- The loop of `conn_write_pkt` over `pktns->tx.frq`, in a packet with room for `k` frames: what it writes and
what remains. -/
def writeLoop (conn : Conn) : Nat → List Frc → Heap → Except Stop (List Frc × List Frc × Heap)
  | _, [], heap => .ok ([], [], heap)
  | k, f :: fs, heap =>
      match heap.isAcked f with
      | .error e => .error e
      | .ok acked =>
          if acked = true ∨ conn.sendable f.fr = false then
            match heap.del f with
            | .error e => .error e
            | .ok heap => writeLoop conn k fs heap
          else
            match k with
            | 0 => .ok ([], f :: fs, heap)
            | k + 1 =>
                match writeLoop conn k fs heap with
                | .error e => .error e
                | .ok (written, rest, heap) => .ok (f :: written, rest, heap)

end Write

section Acknowledgement

/-- What happens to the frames, by their ids. -/
inductive Event
  | acked (id : Nat)
  | effect (id : Nat)
  | queued (id : Nat)
  | encoded (id : Nat)
  deriving DecidableEq

/-- The effect of an acknowledgement on `conn->scid.num_in_flight`. -/
def takeEffect : Fr → Nat → Except Stop Nat
  | .newConnectionId _, numInFlight => if numInFlight = 0 then .error .assertion else .ok (numInFlight - 1)
  | _, numInFlight => .ok numInFlight

/-- The loop of `process_acked_pkt`. The log has the last event in front. -/
def ackLoop : List Frc → Heap → Nat → List Event → Except Stop (Heap × Nat × List Event)
  | [], heap, numInFlight, log => .ok (heap, numInFlight, log)
  | f :: fs, heap, numInFlight, log =>
      match heap.isAcked f with
      | .error e => .error e
      | .ok true => ackLoop fs heap numInFlight (.acked f.id :: log)
      | .ok false =>
          match takeEffect f.fr numInFlight with
          | .error e => .error e
          | .ok numInFlight => ackLoop fs (heap.setAcked f) numInFlight (.effect f.id :: .acked f.id :: log)

end Acknowledgement

section Runs

/-- `ngtcp2_rtb_entry` with its control frames. -/
structure Entry where
  frames : List Frc
  lostRetransmitted : Bool := false
  ptoReclaimed : Bool := false

/-- A packet number space. `lost` are the copies that nothing points to any more, `ids` is how many control frames
there have been, and `log` has the last event in front. -/
structure State where
  frq : List Frc := []
  ents : List Entry := []
  heap : Heap := {}
  numInFlight : Nat := 0
  lost : List Frc := []
  ids : Nat := 0
  log : List Event := []

namespace State

variable (s : State)

/-- A new frame in front of `pktns->tx.frq`. -/
def queue (fr : Fr) : State :=
  { s with
    frq := { fr := fr, id := s.ids } :: s.frq
    numInFlight := if fr.isNewConnectionId then s.numInFlight + 1 else s.numInFlight
    ids := s.ids + 1 }

/-- The frames that `conn_write_pkt` makes; NEW_CONNECTION_ID frames only come through the queue. -/
abbrev PlainFr : Type :=
  { fr : Fr // fr.isNewConnectionId = false }

def fresh : Nat → List PlainFr → List Frc
  | _, [] => []
  | id, fr :: frs => { fr := fr.1, id := id } :: fresh (id + 1) frs

/-- The packet with the frames joins the others if there is a frame in it. -/
def addEntry (frames : List Frc) (ents : List Entry) : List Entry :=
  if frames = [] then ents else { frames := frames } :: ents

/-- `conn_write_pkt`. When all frames of the queue have fitted, it makes frames of its own: first `added`, which
fit, then `unfit`, which stay in the queue. -/
def writePkt (conn : Conn) (k : Nat) (added unfit : List PlainFr) : Except Stop State :=
  match writeLoop conn k s.frq s.heap with
  | .error e => .error e
  | .ok (written, rest, heap) =>
      let log := (written.map fun f => Event.encoded f.id).reverse ++ s.log
      if rest = [] then
        .ok
          { s with
            frq := fresh (s.ids + added.length) unfit
            ents := addEntry (written ++ fresh s.ids added) s.ents
            heap := heap
            ids := s.ids + added.length + unfit.length
            log := log }
      else .ok { s with frq := rest, ents := addEntry written s.ents, heap := heap, log := log }

/-- `rtb_reclaim_frame` for the entry `i`, which gets new flags if it succeeds. -/
def reclaimFrame (conn : Conn) (memory : Nat → Memory) (i : Nat) (e e' : Entry) : Except Stop State :=
  match reclaimLoop conn memory e.frames s.heap with
  | .error stop => .error stop
  | .ok r =>
      .ok
        { s with
          frq := r.copies ++ s.frq
          ents := s.ents.set i { (if r.rv = .ok then e' else e) with frames := r.frames }
          heap := r.heap
          lost := r.lost ++ s.lost
          log := (r.copies.map fun f => Event.queued f.id).reverse ++ s.log }

/-- `rtb_on_pkt_lost` -/
def onPktLost (conn : Conn) (memory : Nat → Memory) (i : Nat) : Except Stop State :=
  match s.ents[i]? with
  | none => .ok s
  | some e =>
      if e.lostRetransmitted then .ok s
      else if e.ptoReclaimed then .ok { s with ents := s.ents.set i { e with lostRetransmitted := true } }
      else s.reclaimFrame conn memory i e { e with lostRetransmitted := true }

/-- `ngtcp2_rtb_reclaim_on_pto` for one entry. -/
def reclaimOnPto (conn : Conn) (memory : Nat → Memory) (i : Nat) : Except Stop State :=
  match s.ents[i]? with
  | none => .ok s
  | some e =>
      if e.lostRetransmitted || e.ptoReclaimed then .ok s
      else s.reclaimFrame conn memory i e { e with ptoReclaimed := true }

/-- `process_acked_pkt` and the deletion of the entry. -/
def processAckedPkt (i : Nat) : Except Stop State :=
  match s.ents[i]? with
  | none => .ok s
  | some e =>
      match ackLoop e.frames s.heap s.numInFlight s.log with
      | .error stop => .error stop
      | .ok (heap, numInFlight, log) =>
          match heap.listDel e.frames with
          | .error stop => .error stop
          | .ok heap =>
              .ok { s with ents := s.ents.eraseIdx i, heap := heap, numInFlight := numInFlight, log := log }

/-- `ngtcp2_rtb_entry_objalloc_del` for an entry that is not acknowledged: a stale lost one, one of 0-RTT data,
or when the packet number space goes away. -/
def removeEntry (i : Nat) : Except Stop State :=
  match s.ents[i]? with
  | none => .ok s
  | some e =>
      match s.heap.listDel e.frames with
      | .error stop => .error stop
      | .ok heap => .ok { s with ents := s.ents.eraseIdx i, heap := heap }

/-- `ngtcp2_rtb_reclaim_on_retry` for one entry, whose frames go back to the queue. -/
def reclaimOnRetry (i : Nat) : Except Stop State :=
  match s.ents[i]? with
  | none => .ok s
  | some e =>
      if e.ptoReclaimed then s.removeEntry i
      else .ok { s with frq := e.frames ++ s.frq, ents := s.ents.eraseIdx i }

/-- The frames that wait are deleted. -/
def discardFrq : Except Stop State :=
  match s.heap.listDel s.frq with
  | .error stop => .error stop
  | .ok heap => .ok { s with frq := [], heap := heap }

end State

inductive Op
  | queue (fr : Fr)
  | writePkt (conn : Conn) (k : Nat) (added unfit : List State.PlainFr)
  | lost (conn : Conn) (memory : Nat → Memory) (i : Nat)
  | pto (conn : Conn) (memory : Nat → Memory) (i : Nat)
  | ack (i : Nat)
  | remove (i : Nat)
  | retry (i : Nat)
  | discard

def step (s : State) : Op → Except Stop State
  | .queue fr => .ok (s.queue fr)
  | .writePkt conn k added unfit => s.writePkt conn k added unfit
  | .lost conn memory i => s.onPktLost conn memory i
  | .pto conn memory i => s.reclaimOnPto conn memory i
  | .ack i => s.processAckedPkt i
  | .remove i => s.removeEntry i
  | .retry i => s.reclaimOnRetry i
  | .discard => s.discardFrq

end Runs

end Zngtcp2.FrameChain
