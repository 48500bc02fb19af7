import Zngtcp2.Lib.Run
import Zngtcp2.Strm.Tx
import Zngtcp2.Tx.Control

namespace Zngtcp2.ScidPool

open Control
open Strm (Stop)

/-- `NGTCP2_MAX_SCID_POOL_SIZE` -/
def maxScidPoolSize : Nat := 8

abbrev Cid := List UInt8

/-- A source connection ID; `queued` says that its `pe.index` is not NGTCP2_PQ_BAD_INDEX. -/
structure Scid where
  seq : Nat
  cid : Cid
  retiredTs : Nat
  used : Bool
  retired : Bool
  queued : Bool
  deriving DecidableEq, Repr

/-- `ngtcp2_scid_init` -/
def Scid.init (seq : Nat) (cid : Cid) : Scid :=
  ⟨seq, cid, uint64Max, false, false, false⟩

/-- An `active_connection_id_limit` that the peer may send. -/
abbrev Limit := { n : Nat // 2 ≤ n }

/-- `conn->scid`. The set is keyed by the connection ID, and the priority queue `used` has the
connection IDs of its entries. `issued` and `acked` record the NEW_CONNECTION_ID frames that were
enqueued and acknowledged. -/
structure Pool where
  cidlen : Nat
  limit : Limit
  set : List Scid
  used : List Cid
  lastSeq : Nat
  numRetired : Nat
  numInFlight : Nat
  frames : Queue Nat
  issued : List Nat
  acked : List Nat
  deriving DecidableEq

/-- The pool after `ngtcp2_conn_commit_local_transport_params`. -/
def Pool.new (oscid : Cid) (preferredAddr : Option Cid) (limit : Limit) : Except Stop Pool :=
  match preferredAddr with
  | none => .ok ⟨oscid.length, limit, [.init 0 oscid], [], 0, 0, 0, .new, [], []⟩
  | some cid =>
      if cid = oscid then .error (.failed .invalidArgument)
      else .ok ⟨oscid.length, limit, [.init 1 cid, .init 0 oscid], [], 1, 0, 0, .new, [], []⟩

/-- `ngtcp2_tstamp_elapsed` -/
def tstampElapsed (base d ts : Nat) : Bool :=
  base ≠ uint64Max && base < uint64Max - d && base + d ≤ ts

def update (set : List Scid) (cid : Cid) (f : Scid → Scid) : List Scid :=
  set.map (fun x => if x.cid = cid then f x else x)

namespace Pool

variable (s : Pool)

/-- `conn_required_num_new_connection_id`, with the unsigned subtraction. -/
def requiredNumNewConnectionId : Except Stop Nat :=
  if maxScidPoolSize ≤ s.set.length then .ok 0
  else if maxScidPoolSize < s.numInFlight then .error (.fault .assertion)
  else if maxScidPoolSize - s.numInFlight = 0 then .ok 0
  else .ok (min (maxScidPoolSize - s.numInFlight) (sub64 (min maxScidPoolSize (s.limit + s.numRetired)) s.set.length))

/-- A new entry of the set, with the frame that announces it. -/
def issue (cid : Cid) : Pool :=
  { s with
    set := .init (s.lastSeq + 1) cid :: s.set
    lastSeq := s.lastSeq + 1
    numInFlight := s.numInFlight + 1
    frames := s.frames.push (s.lastSeq + 1)
    issued := (s.lastSeq + 1) :: s.issued }

/-- The loop of `conn_enqueue_new_connection_id`; the callback provides `cids`. -/
def issueLoop : Nat → List Cid → Pool → Except Stop Pool
  | 0, _, s => .ok s
  | _ + 1, [], _ => .error (.failed .callbackFailure)
  | n + 1, cid :: cids, s =>
      if cid.length ≠ s.cidlen then .error (.failed .callbackFailure)
      else if s.set.any (fun x => decide (x.cid = cid)) then .error (.failed .callbackFailure)
      else if maxScidPoolSize ≤ s.numInFlight then .error (.fault .assertion)
      else issueLoop n cids (s.issue cid)

def enqueueNewConnectionId (cids : List Cid) : Except Stop Pool := do
  let need ← s.requiredNumNewConnectionId
  issueLoop need cids s

/-- `conn_verify_dcid`; `none` where the connection ID is not known. -/
def verifyDcid (dcid : Cid) : Option Pool :=
  match s.set.find? (fun x => decide (x.cid = dcid)) with
  | none => none
  | some scid =>
      if scid.used then some s
      else some { s with
        set := update s.set dcid (fun x => { x with used := true, queued := true })
        used := if scid.queued then s.used else dcid :: s.used }

/-- `conn_recv_retire_connection_id` for a frame in a packet with the destination `dcid`. -/
def recvRetireConnectionId (dcid : Cid) (ts seq : Nat) : Except Stop Pool :=
  if s.cidlen = 0 ∨ s.lastSeq < seq then .error (.failed .proto)
  else
    match s.set.find? (fun x => decide (x.seq = seq)) with
    | none => .ok s
    | some scid =>
        if scid.cid = dcid then .error (.failed .proto)
        else .ok { s with
          set := update s.set scid.cid (fun x => { x with retired := true, queued := true, retiredTs := ts })
          numRetired := if scid.retired then s.numRetired else s.numRetired + 1
          used := scid.cid :: (if scid.queued then s.used.erase scid.cid else s.used) }

def recvRetireFrames (dcid : Cid) (ts : Nat) : List Nat → Pool → Except Stop Pool
  | [], s => .ok s
  | seq :: seqs, s => do
      let s ← s.recvRetireConnectionId dcid ts seq
      recvRetireFrames dcid ts seqs s

/-- A packet to `dcid` with RETIRE_CONNECTION_ID frames; it is discarded if `dcid` is not known. -/
def recvPkt (dcid : Cid) (ts : Nat) (seqs : List Nat) : Except Stop Pool :=
  match s.verifyDcid dcid with
  | none => .ok s
  | some s => recvRetireFrames dcid ts seqs s

end Pool

/-- The entry with the smallest timestamp. -/
def pqTop : List Scid → Option Scid
  | [] => none
  | x :: xs =>
      match pqTop xs with
      | none => some x
      | some y => some (if y.retiredTs < x.retiredTs then y else x)

namespace Pool

variable (s : Pool)

def usedScids : List Scid :=
  s.used.filterMap (fun cid => s.set.find? (fun x => decide (x.cid = cid)))

/-- The loop of `conn_remove_retired_connection_id`, which takes an entry from `used` in each round. -/
def removeLoop (pto ts : Nat) : Nat → Pool → Except Stop Pool
  | 0, s => .ok s
  | n + 1, s =>
      match pqTop s.usedScids with
      | none => .ok s
      | some scid =>
          if !tstampElapsed scid.retiredTs pto ts then .ok s
          else if !scid.retired then .error (.fault .assertion)
          else if s.numRetired = 0 then .error (.fault .assertion)
          else removeLoop pto ts n { s with
            set := s.set.filter (fun x => decide (x.cid ≠ scid.cid))
            used := s.used.erase scid.cid
            numRetired := s.numRetired - 1 }

def removeRetiredConnectionId (pto ts : Nat) : Except Stop Pool :=
  removeLoop pto ts s.used.length s

/-- The NEW_CONNECTION_ID frames that are acknowledged for the first time. -/
def ackFrames : List Nat → Pool → Except Stop Pool
  | [], s => .ok s
  | seq :: seqs, s =>
      if s.numInFlight = 0 then .error (.fault .assertion)
      else ackFrames seqs { s with numInFlight := s.numInFlight - 1, acked := seq :: s.acked }

end Pool

inductive Input
  | enqueue (cids : List Cid)
  | recvPkt (dcid : Cid) (ts : Nat) (seqs : List Nat)
  | removeRetired (pto ts : Nat)
  | write (k : Nat)
  | acked (i : Nat)
  | lost (i : Nat)
  | pto (i : Nat)
  | removeLost (i : Nat)
  deriving DecidableEq, Repr

def step (s : Pool) : Input → Except Stop Pool
  | .enqueue cids => if s.cidlen = 0 then .ok s else s.enqueueNewConnectionId cids
  | .recvPkt dcid ts seqs => s.recvPkt dcid ts seqs
  | .removeRetired pto ts => s.removeRetiredConnectionId pto ts
  | .write k => .ok { s with frames := s.frames.write k }
  | .acked i => Pool.ackFrames (s.frames.processAckedPkt i).1 { s with frames := (s.frames.processAckedPkt i).2 }
  | .lost i => .ok { s with frames := s.frames.onPktLost i }
  | .pto i => .ok { s with frames := s.frames.reclaimOnPto i }
  | .removeLost i => .ok { s with frames := s.frames.removeLostPkt i }

end Zngtcp2.ScidPool
