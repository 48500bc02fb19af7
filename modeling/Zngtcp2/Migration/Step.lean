import Zngtcp2.Migration.Model

namespace Zngtcp2.Migration

open Gaptr (Gaps)

/-- `ngtcp2_path_history_entry` -/
structure PathHistoryEntry where
  path : Path
  maxUdpPayloadSize : Nat
  ts : Nat
  deriving DecidableEq, Repr

/-- A received NEW_CONNECTION_ID frame. -/
structure NewConnectionId where
  seq : Nat
  retirePriorTo : Nat
  cid : List UInt8
  token : List UInt8
  deriving DecidableEq, Repr

inductive State
  | handshake
  | postHandshake
  | closing
  deriving DecidableEq, Repr

/-- What the application decides about connection IDs and paths. -/
structure Settings where
  activeConnectionIdLimit : Nat
  noPmtud : Bool
  disableActiveMigration : Bool
  preferredAddrs : List Nat
  deriving DecidableEq, Repr

/-- The paths of `ngtcp2_conn` and the connection IDs of the peer. The last five fields record what
happened: the bytes received from each path in datagrams, those sent to it that are counted, the most
that these were together with one packet that is not counted, the data of the PATH_CHALLENGE frames made
for a path, and the paths that were validated: by a Handshake packet, by a token, or by a PATH_RESPONSE
frame with the data of such a PATH_CHALLENGE. -/
structure Conn extends Settings where
  server : Bool
  state : State
  handshakeConfirmed : Bool
  current : Dcid
  pv : Option Pv
  dtr : Dcidtr
  retirePriorTo : Nat
  seqgap : Gaps
  pathHistory : List PathHistoryEntry
  pathChallenge : List (Path × List UInt8)
  pmtud : Bool
  received : Path → Nat
  sent : Path → Nat
  peak : Path → Nat
  challenged : List (Path × List UInt8)
  answered : List Path

/-- What is read of the rest of the connection: the clock, the PTO and the initial PTO, and whether a new
PMTUD is finished at once. -/
structure Env where
  ts : Nat
  pto : Nat
  initialPto : Nat
  pmtudFinished : Bool
  deriving DecidableEq, Repr

/-- `conn_compute_pv_timeout_pto` -/
def Env.pvTimeoutPto (env : Env) (pto : Nat) : Nat :=
  3 * max pto env.initialPto

/-- `conn_compute_pv_timeout` -/
def Env.pvTimeout (env : Env) : Nat :=
  env.pvTimeoutPto env.pto

/-- `10 * NGTCP2_MINUTES`, in nanoseconds. -/
def pathHistoryTimeout : Nat :=
  600000000000

namespace Conn

variable (conn : Conn)

/-- `conn_new`; `token` says that a server got a token. -/
def new (server : Bool) (cid : List UInt8) (path : Path) (token : Bool) (settings : Settings) : Conn where
  toSettings := settings
  server := server
  state := .handshake
  handshakeConfirmed := false
  current := { Dcid.init 0 cid none with path := path, validated := server && token }
  pv := none
  dtr := .new
  retirePriorTo := 0
  seqgap := Gaptr.push [] 0 1
  pathHistory := []
  pathChallenge := []
  pmtud := false
  received := fun _ => 0
  sent := fun _ => 0
  peak := fun _ => 0
  challenged := []
  answered := if server && token then [path] else []

/-- `conn_server_preferred_addr_migration` -/
def serverPreferredAddrMigration (localAddr : Nat) : Bool :=
  conn.preferredAddrs.contains localAddr

/-- `ngtcp2_conn_add_path_history` -/
def addPathHistory (dcid : Dcid) (ts : Nat) : Conn :=
  { conn with pathHistory := pushFront 4 conn.pathHistory ⟨dcid.path, dcid.maxUdpPayloadSize, ts⟩ }

/-- `ngtcp2_conn_find_path_history`: the position of the entry. -/
def findPathHistory (path : Path) (ts : Nat) : Option Nat :=
  go path ts conn.pathHistory
where
  go (path : Path) (ts : Nat) : List PathHistoryEntry → Option Nat
    | [] => none
    | ent :: rest =>
        if ent.ts < uint64Max - pathHistoryTimeout ∧ ent.ts + pathHistoryTimeout ≤ ts then none
        else if ent.path = path then some 0
        else (go path ts rest).map (· + 1)

/-- The current path goes into the history if it is validated. The second result is where the entry
at the position `i` is then: an element of a full ring buffer is overwritten, and `validated_path` points
to it. -/
def addCurrentToHistory (ts i : Nat) : Conn × Nat :=
  if conn.current.validated then (conn.addPathHistory conn.current ts, (i + 1) % 4) else (conn, i)

/-- `ngtcp2_dcid_apply_validated_path` for the current connection ID. -/
def applyValidatedPath (i : Nat) : Conn :=
  { conn with current := { conn.current with
      validated := true
      maxUdpPayloadSize := (conn.pathHistory[i]?.map (·.maxUdpPayloadSize)).getD conn.current.maxUdpPayloadSize } }

/-- `conn_start_pmtud` -/
def startPmtud (env : Env) : Except Stop Conn := do
  assert (conn.pmtud = false)
  .ok { conn with pmtud := !env.pmtudFinished }

/-- PMTUD is started unless the settings say otherwise. -/
def startPmtudIf (env : Env) : Except Stop Conn :=
  if conn.noPmtud then .ok conn else conn.startPmtud env

/-- `conn_retire_active_dcid` -/
def retireActiveDcid (dcid : Dcid) (ts : Nat) : Except Stop Conn := do
  let dtr ← conn.dtr.retireActiveDcid dcid ts
  .ok { conn with dtr := dtr }

/-- The connection ID is retired unless it is zero-length or the same as another one that is kept. -/
def retireUnless (dcid : Dcid) (kept : List Nat) (ts : Nat) : Except Stop Conn :=
  if dcid.cid ≠ [] ∧ dcid.seq ∉ kept then conn.retireActiveDcid dcid ts else .ok conn

/-- `conn_stop_pv` -/
def stopPv (ts : Nat) : Except Stop Conn :=
  match conn.pv with
  | none => .ok conn
  | some pv => do
      let conn ← conn.retireUnless pv.dcid [conn.current.seq] ts
      let conn ← (match pv.fallback with
        | none => .ok conn
        | some fallback => conn.retireUnless fallback [conn.current.seq, pv.dcid.seq] ts)
      .ok { conn with pv := none }

/-- `conn_abort_pv` -/
def abortPv (ts : Nat) : Except Stop Conn := do
  assert (conn.pv.isSome = true)
  conn.stopPv ts

/-- `conn_on_path_validation_failed` -/
def onPathValidationFailed (pv : Pv) (ts : Nat) : Except Stop Conn :=
  match pv.fallback with
  | none => conn.stopPv ts
  | some fallback => Conn.stopPv { conn with current := fallback } ts

/-- The paths in use: that of the current connection ID, and those of the path validation. -/
def inUse (path : Path) : Bool :=
  conn.current.path = path || conn.pv.any fun pv => pv.dcid.path = path || pv.fallback.any fun dcid => dcid.path = path

/-- `conn_bind_dcid`; `none` is NGTCP2_ERR_CONN_ID_BLOCKED. -/
def bindDcid (path : Path) (ts : Nat) : Except Stop (Option Conn) := do
  assert (conn.inUse path = false)
  if (conn.dtr.findBoundDcid path).isSome then .ok (some conn)
  else if conn.current.cid = [] then .ok (some { conn with dtr := conn.dtr.bindZerolenDcid path })
  else if conn.dtr.unused = [] then .ok none
  else do
    let dtr ← conn.dtr.bindDcid path ts
    .ok (some { conn with dtr := dtr })

/-- Where the connection ID of a path other than the current one is. -/
inductive Holder
  | pv
  | fallback
  | bound
  deriving DecidableEq, Repr

/-- The path is that of the path validation, or of its fallback. -/
def pvHolder (path : Path) : Option Holder :=
  conn.pv.bind fun pv =>
    if pv.dcid.path = path then some .pv
    else if pv.fallback.any fun dcid => dcid.path = path then some .fallback
    else none

def dcidAt (path : Path) : Holder → Option Dcid
  | .pv => conn.pv.map Pv.dcid
  | .fallback => conn.pv.bind Pv.fallback
  | .bound => conn.dtr.findBoundDcid path

/-- The bytes received and sent at a connection ID go up. -/
def growAt (path : Path) (received sent : Nat) : Holder → Conn
  | .pv => { conn with pv := conn.pv.map fun pv => { pv with dcid := pv.dcid.grow received sent } }
  | .fallback => { conn with pv := conn.pv.map fun pv => { pv with fallback := pv.fallback.map fun dcid => dcid.grow received sent } }
  | .bound => { conn with dtr := { conn.dtr with
      bound := conn.dtr.bound.map fun dcid => if dcid.path = path then dcid.grow received sent else dcid } }

/-- `conn_recv_path_challenge` -/
def recvPathChallenge (path : Path) (data : List UInt8) : Conn :=
  if !conn.server && conn.current.path ≠ path && !conn.pv.any (fun pv => pv.dcid.path = path) then conn
  else { conn with pathChallenge := pushFront 4 conn.pathChallenge (path, data) }

/-- The current connection ID is replaced by that of the path validation, if it is not the same. -/
def migrateToPv (pv : Pv) (ts : Nat) : Except Stop Conn :=
  if pv.dcid.seq ≠ conn.current.seq ∨ pv.dcid.path ≠ conn.current.path then do
    let conn ← conn.retireUnless conn.current [pv.dcid.seq] ts
    let conn := (conn.addCurrentToHistory ts 0).1
    .ok { conn with current := pv.dcid }
  else .ok conn

/-- The part of `conn_recv_path_response` for a path validation without NGTCP2_PV_FLAG_DONT_CARE. -/
def pathValidated (pv : Pv) (ent : PvEntry) (env : Env) : Except Stop Conn := do
  let conn ← conn.migrateToPv pv env.ts
  assert (pv.dcid.path = conn.current.path)
  let conn := { conn with current := { conn.current with validated := true } }
  if conn.noPmtud then .ok conn
  else if ent.undersized then .ok { conn with pmtud := false }
  else Conn.startPmtud { conn with pmtud := false } env

/-- The path validation that follows one that succeeded. -/
def nextPv (pv : Pv) (ent : PvEntry) (env : Env) : Except Stop (Option Pv) :=
  if ent.undersized then do
    assert (conn.server = true)
    let npv := Pv.new { pv.dcid with validated := true } env.pvTimeout false false
    .ok (some (match pv.fallback with
      | none => npv
      | some fallback => npv.setFallback fallback pv.fallbackPto))
  else .ok (pv.fallback.map fun fallback => Pv.new fallback (env.pvTimeoutPto pv.fallbackPto) true false)

/-- The paths for which a PATH_CHALLENGE with this data was made. -/
def answersOf (data : List UInt8) : List Path :=
  (conn.challenged.filter fun c => c.2 = data).map Prod.fst

/-- `conn_recv_path_response` -/
def recvPathResponse (data : List UInt8) (env : Env) : Except Stop Conn :=
  let conn := { conn with answered := conn.answersOf data ++ conn.answered }
  match conn.pv with
  | none => .ok conn
  | some pv =>
      match pv.validate data with
      | none => .ok conn
      | some ent => do
          let conn ← (if pv.dontCare then .ok conn else conn.pathValidated pv ent env)
          let npv ← conn.nextPv pv ent env
          let conn ← Conn.stopPv { conn with pv := some { pv with fallback := none } } env.ts
          .ok { conn with pv := npv }

/-- The connection ID with which a server goes on at a new path; `none` is NGTCP2_ERR_CONN_ID_BLOCKED. -/
def dcidForNewPath (path : Path) (newCidUsed : Bool) : Except Stop (Option (Dcid × Conn)) :=
  match conn.dtr.popBoundDcid path with
  | some (dcid, dtr) => .ok (some (dcid, { conn with dtr := dtr }))
  | none =>
      if conn.current.cid ≠ [] ∧
          (newCidUsed ∧ conn.current.path.remoteAddr ≠ path.remoteAddr ∨ conn.current.path.localAddr ≠ path.localAddr) then
        if conn.dtr.unused = [] then .ok none
        else do
          let (dcid, dtr) ← conn.dtr.popUnused
          .ok (some ({ dcid with path := path }, { conn with dtr := dtr }))
      else
        .ok (some ({ conn.current with bytesSent := 0, bytesRecv := 0, validated := false, path := path }, conn))

/-- The path validation of a new path, with the fallback of the one before it; that one loses it. -/
def newPathPv (dcid : Dcid) (prefAddrMigration : Bool) (env : Env) : Pv × Conn :=
  let pv := Pv.new dcid (env.pvTimeoutPto env.pto) false false
  match conn.pv with
  | some old =>
      match old.fallback with
      | some fallback =>
          (pv.setFallback fallback old.fallbackPto, { conn with pv := some { old with fallback := none } })
      | none => (if prefAddrMigration then pv else pv.setFallback conn.current env.pto, conn)
  | none => (if prefAddrMigration then pv else pv.setFallback conn.current env.pto, conn)

/-- The current path becomes that of `dcid`; `validated` is the position of its entry in the history. -/
def migrateToNewPath (dcid : Dcid) (validated : Option Nat) (env : Env) : Except Stop Conn := do
  let (conn, i) := conn.addCurrentToHistory env.ts (validated.getD 0)
  let conn := { conn with current := dcid, pmtud := false }
  match validated with
  | none => .ok conn
  | some _ => (conn.applyValidatedPath i).startPmtudIf env

/-- The server goes on with `dcid` at the new path. -/
def startOnNewPath (dcid : Dcid) (prefAddrMigration : Bool) (env : Env) : Except Stop Conn := do
  let validated := conn.findPathHistory dcid.path env.ts
  let (pv, conn) := if validated.isSome then (none, conn)
    else (some (conn.newPathPv dcid prefAddrMigration env).1, (conn.newPathPv dcid prefAddrMigration env).2)
  let conn ← (if !prefAddrMigration || validated.isSome then conn.migrateToNewPath dcid validated env else .ok conn)
  let conn ← (if conn.pv.isSome then conn.abortPv env.ts else .ok conn)
  .ok { conn with pv := pv }

/-- The peer is back at the path from which it migrated. -/
def migrateBack (fallback : Dcid) (dgramlen : Nat) (env : Env) : Except Stop Conn := do
  let conn ← Conn.abortPv { conn with current := fallback.grow dgramlen 0 } env.ts
  assert (conn.pmtud = false)
  conn.startPmtudIf env

/-- `conn_recv_non_probing_pkt_on_new_path` -/
def recvNonProbingPktOnNewPath (path : Path) (dgramlen : Nat) (newCidUsed : Bool) (env : Env) : Except Stop Conn := do
  assert (conn.server = true)
  match conn.pv.bind fun pv => pv.fallback.filter fun dcid => dcid.path = path with
  | some fallback => conn.migrateBack fallback dgramlen env
  | none =>
      let prefAddrMigration := conn.current.path.localAddr ≠ path.localAddr && conn.serverPreferredAddrMigration path.localAddr
      match ← conn.dcidForNewPath path newCidUsed with
      | none => .ok conn
      | some (dcid, conn) => conn.startOnNewPath (dcid.grow dgramlen 0) prefAddrMigration env

/-- `conn_recv_pkt_from_new_path` -/
def recvPktFromNewPath (path : Path) (dgramlen : Nat) (pathChallengeRecved : Bool) (env : Env) : Except Stop Conn :=
  match conn.pvHolder path with
  | some holder => .ok (conn.growAt path dgramlen 0 holder)
  | none =>
      if pathChallengeRecved then do
        match ← conn.bindDcid path env.ts with
        | none => .ok conn
        | some conn => .ok (conn.growAt path dgramlen 0 .bound)
      else .ok conn

/-- How many connection IDs are in use, not counting those that must be retired. -/
def extraDcid : Nat :=
  let kept := fun dcid : Dcid => decide (dcid.seq ≠ conn.current.seq) && decide (conn.retirePriorTo ≤ dcid.seq)
  (if conn.retirePriorTo ≤ conn.current.seq then 1 else 0) + (if conn.pv.any fun pv => kept pv.dcid then 1 else 0) +
    (if conn.pv.any fun pv => pv.fallback.any kept then 1 else 0)

/-- The end of `conn_recv_new_connection_id`: a new connection ID is kept. -/
def addNewConnectionId (fr : NewConnectionId) (found : Bool) : Except Stop Conn :=
  if found then .ok conn
  else
    match Gaptr.isPushed conn.seqgap fr.seq 1 with
    | .error _ => .error .assertion
    | .ok true => .ok conn
    | .ok false =>
        let seqgap := Gaptr.push conn.seqgap fr.seq 1
        let conn := { conn with seqgap := if 32 < seqgap.length then Gaptr.dropFirstGap seqgap else seqgap }
        let len := conn.dtr.unused.length + conn.dtr.bound.length
        let extraDcid := conn.extraDcid
        if conn.activeConnectionIdLimit ≤ len + extraDcid then .error (.failed .connectionIdLimit)
        else if 8 ≤ len then .ok conn
        else .ok { conn with dtr := conn.dtr.pushUnused fr.seq fr.cid fr.token }

/-- `conn_recv_new_connection_id` -/
def recvNewConnectionId (fr : NewConnectionId) : Except Stop Conn :=
  if conn.current.cid = [] then .error (.failed .proto)
  else if fr.seq < fr.retirePriorTo then .error (.failed .frameEncoding)
  else if !conn.current.verifyUniqueness fr.seq fr.cid fr.token then .error (.failed .proto)
  else if conn.pv.any fun pv => !pv.dcid.verifyUniqueness fr.seq fr.cid fr.token then .error (.failed .proto)
  else if !conn.dtr.verifyTokenUniqueness fr.seq fr.cid fr.token then .error (.failed .proto)
  else
    let found := conn.current.cid = fr.cid || conn.pv.any (fun pv => pv.dcid.cid = fr.cid) || conn.dtr.hasCid fr.cid
    if conn.retirePriorTo < fr.retirePriorTo then do
      let dtr ← conn.dtr.retireInactiveDcidPriorTo fr.retirePriorTo
      Conn.addNewConnectionId { conn with retirePriorTo := fr.retirePriorTo, dtr := dtr } fr found
    else if fr.seq < conn.retirePriorTo then
      if fr.seq ∈ conn.dtr.retireUnacked then .ok conn
      else do
        let dtr ← conn.dtr.trackRetiredSeq fr.seq
        .ok { conn with dtr := dtr.enqueueRetireConnectionId fr.seq }
    else conn.addNewConnectionId fr found

/-- The connection ID in `dcid` is retired, and replaced by an unused one wherever it is used. -/
def renew (dcid : Dcid) (ts : Nat) : Except Stop (Dcid × Conn) := do
  let conn ← conn.retireActiveDcid dcid ts
  let (fresh, dtr) ← conn.dtr.popUnused
  .ok (fresh, { conn with dtr := dtr })

/-- The fallback of the path validation gets a new connection ID when it must be retired. -/
def renewFallback (ts : Nat) : Except Stop Conn :=
  match conn.pv with
  | none => .ok conn
  | some pv =>
      match pv.fallback with
      | none => .ok conn
      | some fallback =>
          if conn.retirePriorTo ≤ fallback.seq then .ok conn
          else if conn.dtr.unused = [] then conn.abortPv ts
          else do
            let (fresh, conn) ← conn.renew fallback ts
            .ok { conn with pv := some { pv with fallback := some (fallback.copyCidToken fresh) } }

/-- The path validation gets a new connection ID when its own must be retired. -/
def renewPv (ts : Nat) : Except Stop Conn :=
  match conn.pv with
  | none => .ok conn
  | some pv =>
      if conn.retirePriorTo ≤ pv.dcid.seq then conn.renewFallback ts
      else if conn.dtr.unused = [] then conn.abortPv ts
      else do
        let (fresh, conn) ← conn.renew pv.dcid ts
        let fallback := pv.fallback.map fun dcid => if dcid.seq = pv.dcid.seq then dcid.copyCidToken fresh else dcid
        Conn.renewFallback { conn with pv := some { pv with dcid := pv.dcid.copyCidToken fresh, fallback := fallback } } ts

/-- `conn_post_process_recv_new_connection_id` -/
def postProcessRecvNewConnectionId (ts : Nat) : Except Stop Conn :=
  if conn.retirePriorTo ≤ conn.current.seq then conn.renewPv ts
  else if conn.dtr.unused = [] then .ok conn
  else do
    let (fresh, conn) ← conn.renew conn.current ts
    let copy := fun dcid : Dcid => if dcid.seq = conn.current.seq then dcid.copyCidToken fresh else dcid
    let pv := conn.pv.map fun pv => { pv with dcid := copy pv.dcid, fallback := pv.fallback.map copy }
    Conn.renewPv { conn with pv := pv, current := conn.current.copyCidToken fresh } ts

end Conn

/-- The frames of a 1-RTT packet. An ACK frame may acknowledge RETIRE_CONNECTION_ID frames. A client may
choose a preferred address of the server when HANDSHAKE_DONE arrives. -/
inductive Frame
  | pathChallenge (data : List UInt8)
  | pathResponse (data : List UInt8)
  | newConnectionId (fr : NewConnectionId)
  | ack (retired : List Nat)
  | handshakeDone (chosen : Option Nat)
  | padding
  | other
  deriving DecidableEq, Repr

def Frame.nonProbing : Frame → Bool
  | .ack _ | .handshakeDone _ | .other => true
  | .pathChallenge _ | .pathResponse _ | .newConnectionId _ | .padding => false

def Frame.isPathChallenge : Frame → Bool
  | .pathChallenge _ => true
  | _ => false

def Frame.isNewConnectionId : Frame → Bool
  | .newConnectionId _ => true
  | _ => false

/-- A 1-RTT packet that could be decrypted: `newest` says that its number is above all that were received,
and `newCidUsed` that it has a connection ID that the peer had not used before. -/
structure Pkt where
  frames : List Frame
  newest : Bool
  newCidUsed : Bool
  deriving DecidableEq, Repr

namespace Conn

variable (conn : Conn)

/-- `conn_select_preferred_addr` -/
def selectPreferredAddr (remoteAddr : Nat) (env : Env) : Except Stop Conn :=
  if conn.dtr.unused = [] ∨ conn.current.path.remoteAddr = remoteAddr then .ok conn
  else do
    assert (conn.pv = none)
    let (dcid, dtr) ← conn.dtr.popUnused
    let pv := Pv.new { dcid with path := ⟨conn.current.path.localAddr, remoteAddr⟩ } env.pvTimeout false true
    .ok { conn with dtr := dtr, pv := some pv }

/-- `conn_recv_handshake_done` -/
def recvHandshakeDone (chosen : Option Nat) (env : Env) : Except Stop Conn :=
  if conn.server then .error (.failed .proto)
  else if conn.handshakeConfirmed then .ok conn
  else
    match chosen with
    | none => .ok { conn with handshakeConfirmed := true }
    | some remoteAddr => Conn.selectPreferredAddr { conn with handshakeConfirmed := true } remoteAddr env

def recvFrame (path : Path) (env : Env) : Frame → Except Stop Conn
  | .pathChallenge data => .ok (conn.recvPathChallenge path data)
  | .pathResponse data => conn.recvPathResponse data env
  | .newConnectionId fr => conn.recvNewConnectionId fr
  | .handshakeDone chosen => conn.recvHandshakeDone chosen env
  | .ack retired => .ok { conn with dtr := retired.foldl Dcidtr.untrackRetiredSeq conn.dtr }
  | .padding | .other => .ok conn

def recvFrames (path : Path) (env : Env) : List Frame → Conn → Except Stop Conn
  | [], conn => .ok conn
  | fr :: frames, conn => do
      let conn ← conn.recvFrame path env fr
      recvFrames path env frames conn

/-- `conn_path_validation_in_progress` -/
def pathValidationInProgress (path : Path) : Bool :=
  conn.pv.any fun pv => pv.dcid.path = path

/-- An error that is not fatal is asserted to be NGTCP2_ERR_CONN_ID_BLOCKED. -/
def expectBlocked (conn : Conn) : Except Stop Conn → Except Stop Conn
  | .error (.failed _) => .error (.unexpected conn.dtr.retireUnacked.length)
  | r => r

/-- The end of `conn_recv_pkt` for a 1-RTT packet that is not from the current path. -/
def recvFromOtherPath (path : Path) (dgramlen : Nat) (pkt : Pkt) (env : Env) : Except Stop Conn :=
  if !conn.server || conn.current.path = path then .ok conn
  else if pkt.frames.any Frame.nonProbing && pkt.newest && !conn.pathValidationInProgress path then
    conn.expectBlocked (conn.recvNonProbingPktOnNewPath path dgramlen pkt.newCidUsed env)
  else conn.expectBlocked (conn.recvPktFromNewPath path dgramlen (pkt.frames.any Frame.isPathChallenge) env)

/-- `conn_recv_pkt` for a 1-RTT packet. -/
def recvPkt (path : Path) (dgramlen : Nat) (pkt : Pkt) (env : Env) : Except Stop Conn := do
  let conn ← recvFrames path env pkt.frames conn
  let conn ← (if pkt.frames.any Frame.isNewConnectionId then conn.postProcessRecvNewConnectionId env.ts else .ok conn)
  conn.recvFromOtherPath path dgramlen pkt env

/-- `conn_recv_cpkt`; the 1-RTT packet is the last one of the datagram, if there is one. -/
def recvCpkt (path : Path) (dgramlen : Nat) (pkt : Option Pkt) (env : Env) : Except Stop Conn :=
  let conn := if conn.current.path = path then { conn with current := conn.current.grow dgramlen 0 } else conn
  if conn.server && conn.disableActiveMigration && conn.current.path.localAddr ≠ path.localAddr &&
      !conn.serverPreferredAddrMigration path.localAddr then .ok conn
  else
    match pkt with
    | none => .ok conn
    | some pkt => conn.recvPkt path dgramlen pkt env

end Conn

end Zngtcp2.Migration
