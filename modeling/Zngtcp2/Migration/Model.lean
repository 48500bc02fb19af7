import Zngtcp2.Err
import Zngtcp2.Lib.Run
import Zngtcp2.Strm.Gaptr

namespace Zngtcp2.Migration

open Gaptr (Gaps)

/-- The addresses of an `ngtcp2_path`. -/
structure Path where
  localAddr : Nat
  remoteAddr : Nat
  deriving DecidableEq, Repr

/-- `NGTCP2_MAX_UDP_PAYLOAD_SIZE` -/
def maxUdpPayloadSize : Nat :=
  1200

/-- `ngtcp2_dcid`; `validated` is NGTCP2_DCID_FLAG_PATH_VALIDATED. -/
structure Dcid where
  seq : Nat
  cid : List UInt8
  token : Option (List UInt8)
  path : Path
  retiredTs : Option Nat
  boundTs : Option Nat
  bytesSent : Nat
  bytesRecv : Nat
  maxUdpPayloadSize : Nat
  validated : Bool
  deriving DecidableEq, Repr

/-- Why processing ends: an error code is returned, or an assertion fails. `conn_recv_pkt` asserts that some
errors are NGTCP2_ERR_CONN_ID_BLOCKED; `unexpected` says how many retired sequence numbers were tracked when
that fails. -/
inductive Stop
  | failed (rv : Err)
  | assertion
  | unexpected (unacked : Nat)
  deriving DecidableEq, Repr

def assert (p : Prop) [Decidable p] : Except Stop Unit :=
  if p then .ok () else .error .assertion

/-- `ngtcp2_ringbuf_push_back`, and what is written to the new element. -/
def pushBack {α : Type} (size : Nat) (xs : List α) (x : α) : List α :=
  if xs.length < size then xs ++ [x] else xs.tail ++ [x]

/-- `ngtcp2_ringbuf_push_front` -/
def pushFront {α : Type} (size : Nat) (xs : List α) (x : α) : List α :=
  (x :: xs).take size

namespace Dcid

/-- `ngtcp2_dcid_init` -/
def init (seq : Nat) (cid : List UInt8) (token : Option (List UInt8)) : Dcid :=
  ⟨seq, cid, token, ⟨0, 0⟩, none, none, 0, 0, Migration.maxUdpPayloadSize, false⟩

variable (dcid : Dcid)

/-- `ngtcp2_dcid_copy_cid_token`, to `dcid`. -/
def copyCidToken (src : Dcid) : Dcid :=
  { dcid with seq := src.seq, cid := src.cid, token := src.token }

/-- More bytes are received and sent. -/
def grow (received sent : Nat) : Dcid :=
  { dcid with bytesRecv := dcid.bytesRecv + received, bytesSent := dcid.bytesSent + sent }

/-- `ngtcp2_dcid_verify_uniqueness` -/
def verifyUniqueness (seq : Nat) (cid token : List UInt8) : Bool :=
  if dcid.seq = seq then dcid.cid = cid ∧ dcid.token = some token else dcid.cid ≠ cid

end Dcid

/-- `ngtcp2_pv_entry` -/
structure PvEntry where
  expiry : Nat
  undersized : Bool
  data : List UInt8
  deriving DecidableEq, Repr

/-- `ngtcp2_pv`; `fallback` is there with NGTCP2_PV_FLAG_FALLBACK_PRESENT. -/
structure Pv where
  dcid : Dcid
  fallback : Option Dcid
  fallbackPto : Nat
  ents : List PvEntry
  timeout : Nat
  startedTs : Option Nat
  round : Nat
  probePktLeft : Nat
  dontCare : Bool
  cancelTimer : Bool
  preferredAddr : Bool
  deriving DecidableEq, Repr

namespace Pv

/-- `ngtcp2_pv_new` -/
def new (dcid : Dcid) (timeout : Nat) (dontCare preferredAddr : Bool) : Pv :=
  ⟨dcid, none, 0, [], timeout, none, 0, 2, dontCare, false, preferredAddr⟩

variable (pv : Pv)

/-- `ngtcp2_pv_add_entry` -/
def addEntry (data : List UInt8) (expiry : Nat) (undersized : Bool) (ts : Nat) : Except Stop Pv := do
  assert (pv.probePktLeft ≠ 0)
  .ok { pv with
    startedTs := if pv.ents = [] then some ts else pv.startedTs
    ents := pushBack 8 pv.ents ⟨expiry, undersized, data⟩
    cancelTimer := false
    probePktLeft := pv.probePktLeft - 1 }

/-- `ngtcp2_pv_validate`; an error is `none`. -/
def validate (data : List UInt8) : Option PvEntry :=
  pv.ents.find? fun ent => ent.data = data

/-- `ngtcp2_pv_handle_entry_expiry` -/
def handleEntryExpiry (ts : Nat) : Pv :=
  match pv.ents.getLast? with
  | none => pv
  | some ent => if ts < ent.expiry then pv else { pv with round := pv.round + 1, probePktLeft := 2 }

/-- `ngtcp2_pv_validation_timed_out` -/
def validationTimedOut (ts : Nat) : Except Stop Bool :=
  match pv.startedTs with
  | none => .ok false
  | some started =>
      match pv.ents.getLast? with
      | none => .error .assertion
      | some ent => .ok (max (started + pv.timeout) ent.expiry ≤ ts)

/-- `ngtcp2_pv_cancel_expired_timer` -/
def cancelExpiredTimer (ts : Nat) : Pv :=
  if !pv.cancelTimer && pv.ents.getLast?.any fun ent => ent.expiry ≤ ts then { pv with cancelTimer := true } else pv

/-- `ngtcp2_pv_set_fallback` -/
def setFallback (dcid : Dcid) (pto : Nat) : Pv :=
  { pv with fallback := some dcid, fallbackPto := pto }

end Pv

/-- `ngtcp2_dcidtr`, with the sequence numbers of the RETIRE_CONNECTION_ID frames that are enqueued. -/
structure Dcidtr where
  unused : List Dcid
  bound : List Dcid
  retired : List Dcid
  retireUnacked : List Nat
  frames : List Nat
  deriving DecidableEq, Repr

/-- An element of a ring buffer is removed: the last one takes its place. -/
def removeAt {α : Type} (xs : List α) (at_ : Nat) : List α :=
  if at_ = 0 then xs.tail
  else
    match xs.getLast? with
    | none => xs
    | some last => (xs.set at_ last).dropLast

namespace Dcidtr

def new : Dcidtr :=
  ⟨[], [], [], [], []⟩

variable (dtr : Dcidtr)

/-- `ngtcp2_dcidtr_track_retired_seq` -/
def trackRetiredSeq (seq : Nat) : Except Stop Dcidtr :=
  if 16 ≤ dtr.retireUnacked.length then .error (.failed .connectionIdLimit)
  else .ok { dtr with retireUnacked := dtr.retireUnacked ++ [seq] }

/-- `ngtcp2_dcidtr_untrack_retired_seq` -/
def untrackRetiredSeq (seq : Nat) : Dcidtr :=
  match dtr.retireUnacked.idxOf? seq with
  | none => dtr
  | some i => { dtr with retireUnacked := removeAt dtr.retireUnacked i }

/-- `conn_enqueue_retire_connection_id` -/
def enqueueRetireConnectionId (seq : Nat) : Dcidtr :=
  { dtr with frames := seq :: dtr.frames }

/-- `dcidtr_on_retire` with the callback of the connection. -/
def onRetire (dcid : Dcid) : Except Stop Dcidtr :=
  if dcid.seq ∈ dtr.retireUnacked then .ok dtr
  else do
    let dtr ← dtr.trackRetiredSeq dcid.seq
    .ok (dtr.enqueueRetireConnectionId dcid.seq)

def findBoundDcid (path : Path) : Option Dcid :=
  dtr.bound.find? fun dcid => dcid.path = path

/-- `ngtcp2_dcidtr_bind_zerolen_dcid` -/
def bindZerolenDcid (path : Path) : Dcidtr :=
  { dtr with bound := pushBack 4 dtr.bound { Dcid.init 0 [] none with path := path } }

/-- `ngtcp2_dcidtr_bind_dcid`; when the buffer is full, its first element is retired. -/
def bindDcid (path : Path) (ts : Nat) : Except Stop Dcidtr := do
  let dtr ← (if dtr.bound.length < 4 then .ok dtr
    else
      match dtr.bound with
      | [] => .ok dtr
      | oldest :: _ => dtr.onRetire oldest)
  match dtr.unused with
  | [] => .error .assertion
  | src :: unused => .ok { dtr with unused := unused, bound := pushBack 4 dtr.bound { src with boundTs := some ts, path := path } }

/-- The loop of `dcidtr_retire_dcid_prior_to` and `ngtcp2_dcidtr_retire_stale_bound_dcid` from the
position `i` on; each round advances or removes an element. -/
def retireWhere (stale : Dcid → Bool) : Nat → List Dcid → Nat → Dcidtr → Except Stop (List Dcid × Dcidtr)
  | 0, rb, _, dtr => .ok (rb, dtr)
  | fuel + 1, rb, i, dtr =>
      match rb[i]? with
      | none => .ok (rb, dtr)
      | some dcid =>
          if stale dcid then do
            let dtr ← dtr.onRetire dcid
            retireWhere stale fuel (removeAt rb i) i dtr
          else retireWhere stale fuel rb (i + 1) dtr

/-- `ngtcp2_dcidtr_retire_inactive_dcid_prior_to` -/
def retireInactiveDcidPriorTo (seq : Nat) : Except Stop Dcidtr := do
  let (bound, dtr) ← retireWhere (fun dcid => dcid.seq < seq) dtr.bound.length dtr.bound 0 dtr
  let dtr := { dtr with bound := bound }
  let (unused, dtr) ← retireWhere (fun dcid => dcid.seq < seq) dtr.unused.length dtr.unused 0 dtr
  .ok { dtr with unused := unused }

/-- `ngtcp2_dcidtr_retire_active_dcid` with `conn_retire_active_dcid`, which enqueues the frame. -/
def retireActiveDcid (dcid : Dcid) (ts : Nat) : Except Stop Dcidtr := do
  assert (dcid.cid ≠ [])
  let dtr := { dtr with retired := pushBack 2 dtr.retired { dcid with retiredTs := some ts } }
  let dtr ← (if dcid.seq ∈ dtr.retireUnacked then .ok dtr else dtr.trackRetiredSeq dcid.seq)
  .ok (dtr.enqueueRetireConnectionId dcid.seq)

/-- `ngtcp2_tstamp_not_elapsed` -/
def tstampNotElapsed (base : Option Nat) (d ts : Nat) : Bool :=
  base.any fun base => uint64Max ≤ base + d || ts < base + d

/-- `ngtcp2_dcidtr_remove_stale_retired_dcid` -/
def removeStaleRetiredDcid (timeout ts : Nat) : Dcidtr :=
  { dtr with retired := dtr.retired.dropWhile fun dcid => !tstampNotElapsed dcid.retiredTs timeout ts }

/-- `ngtcp2_dcidtr_pop_bound_dcid` -/
def popBoundDcid (path : Path) : Option (Dcid × Dcidtr) :=
  match dtr.bound.findIdx? fun dcid => dcid.path = path with
  | none => none
  | some i => (dtr.bound[i]?).map fun dcid => (dcid, { dtr with bound := removeAt dtr.bound i })

/-- `ngtcp2_dcidtr_retire_stale_bound_dcid` -/
def retireStaleBoundDcid (timeout ts : Nat) : Except Stop Dcidtr := do
  assert (∀ dcid ∈ dtr.bound, dcid.cid ≠ [])
  let (bound, dtr) ← retireWhere (fun dcid => !tstampNotElapsed dcid.boundTs timeout ts) dtr.bound.length dtr.bound 0 dtr
  .ok { dtr with bound := bound }

/-- `ngtcp2_dcidtr_push_unused` -/
def pushUnused (seq : Nat) (cid token : List UInt8) : Dcidtr :=
  { dtr with unused := pushBack 8 dtr.unused (.init seq cid (some token)) }

/-- `ngtcp2_dcidtr_pop_unused`; `ngtcp2_dcidtr_pop_unused_cid_token` takes the same element. -/
def popUnused : Except Stop (Dcid × Dcidtr) :=
  match dtr.unused with
  | [] => .error .assertion
  | dcid :: unused => .ok (dcid, { dtr with unused := unused })

def checkPathRetired (path : Path) : Bool :=
  dtr.retired.any fun dcid => dcid.path = path

def verifyTokenUniqueness (seq : Nat) (cid token : List UInt8) : Bool :=
  (dtr.bound ++ dtr.unused).all fun dcid => dcid.verifyUniqueness seq cid token

def hasCid (cid : List UInt8) : Bool :=
  (dtr.bound ++ dtr.unused).any fun dcid => dcid.cid = cid

end Dcidtr

end Zngtcp2.Migration
