import Zngtcp2.Migration.Step

namespace Zngtcp2.Migration

/-- A call for a packet: the length of the buffer, its length after `conn_shape_udp_payload`, and what
is read of the rest of the connection: pacing, congestion control, what is left to send, and how long the
packets would be (Handshake packets before and after the handshake, ACK-only packets, the path frames). -/
structure WriteEnv extends Env where
  destlen : Nat
  shaped : Nat
  pacingAllowed : Bool
  noBudget : Bool
  aggregate : Bool
  txKey : Bool
  remnants : Bool
  exceedCwnd : Bool
  stopAfterHandshake : Bool
  handshakeLen : Nat
  handshakeAckLen : Nat
  pktLen : Nat
  ackLen : Nat
  probeLen : Nat
  responseLen : Nat
  challengeLen : Nat
  challengeData : List UInt8
  deriving DecidableEq, Repr

/-- `dcid_tx_left`; `none` is SIZE_MAX. -/
def Dcid.txLeft (dcid : Dcid) : Except Stop (Option Nat) :=
  if dcid.validated then .ok none
  else do
    assert (dcid.bytesSent ≤ dcid.bytesRecv * 3)
    .ok (some (dcid.bytesRecv * 3 - dcid.bytesSent))

namespace Conn

variable (conn : Conn)

/-- `conn_server_tx_left` -/
def serverTxLeft (dcid : Dcid) : Except Stop (Option Nat) :=
  if dcid.path = conn.current.path then conn.current.txLeft else dcid.txLeft

/-- How much of `len` a server may send to a path that is not validated. -/
def limit (dcid : Dcid) (len : Nat) : Except Stop Nat :=
  if conn.server && !dcid.validated then do
    match ← conn.serverTxLeft dcid with
    | none => .ok len
    | some left => .ok (min len left)
  else .ok len

/-- A packet is sent to the current path; `bytes_sent` is updated. -/
def sendCurrent (n : Nat) : Conn :=
  { conn with
    current := conn.current.grow 0 n
    sent := Function.update conn.sent conn.current.path (conn.sent conn.current.path + n) }

/-- A packet of `ngtcp2_conn_write_single_frame_pkt` is sent to the current path; `bytes_sent` is not updated. -/
def sendUncounted (n : Nat) : Conn :=
  { conn with
    peak := Function.update conn.peak conn.current.path (max (conn.peak conn.current.path) (conn.sent conn.current.path + n)) }

/-- A packet with a path frame is sent to another path. -/
def sendAt (path : Path) (n : Nat) (holder : Holder) : Conn :=
  { conn.growAt path 0 n holder with sent := Function.update conn.sent path (conn.sent path + n) }

/-- The end of `conn_write_path_response`: the frame is sent to the path of `holder`. -/
def respond (w : WriteEnv) (path : Path) (holder : Holder) : Except Stop (Conn × Nat) :=
  match conn.dcidAt path holder with
  | none => .ok (conn, 0)
  | some dcid => do
      let len ← conn.limit dcid (min w.destlen maxUdpPayloadSize)
      let n := min w.responseLen len
      if n = 0 then .ok (conn, 0)
      else .ok (Conn.sendAt { conn with pathChallenge := conn.pathChallenge.tail } path n holder, n)

/-- `conn_write_path_response` -/
def writePathResponse (w : WriteEnv) : List (Path × List UInt8) → Conn → Except Stop (Conn × Nat)
  | [], conn => .ok (conn, 0)
  | (path, _) :: rest, conn =>
      if conn.current.path = path then .ok (conn, 0)
      else
        match conn.pvHolder path with
        | some holder => conn.respond w path holder
        | none =>
            if conn.server then
              match conn.bindDcid path w.ts with
              | .error (.failed _) | .ok none => .ok (conn, 0)
              | .error stop => .error stop
              | .ok (some conn) => conn.respond w path .bound
            else writePathResponse w rest { conn with pathChallenge := rest }

/-- The PATH_CHALLENGE is entered, and sent to the path of the path validation. -/
def challenge (w : WriteEnv) (pv : Pv) : Except Stop (Conn × Nat) := do
  let len ← conn.limit pv.dcid (min w.destlen maxUdpPayloadSize)
  if conn.server ∧ pv.dcid.validated = false ∧ len = 0 then .ok ({ conn with pv := some pv }, 0)
  else do
    let expiry := w.ts + max w.pto w.initialPto * 2 ^ pv.round
    let pv ← pv.addEntry w.challengeData expiry (conn.server && len < maxUdpPayloadSize) w.ts
    let conn := { conn with pv := some pv, challenged := (pv.dcid.path, w.challengeData) :: conn.challenged }
    let n := min w.challengeLen len
    if n = 0 then .ok (conn, 0)
    else if pv.dcid.path = conn.current.path then .ok (conn.sendCurrent n, n)
    else .ok (conn.sendAt pv.dcid.path n .pv, n)

/-- `conn_write_path_challenge` -/
def writePathChallenge (w : WriteEnv) : Except Stop (Conn × Nat) :=
  match conn.pv with
  | none => .ok (conn, 0)
  | some pv => do
      if ← pv.validationTimedOut w.ts then do
        let conn ← conn.onPathValidationFailed pv w.ts
        .ok (conn, 0)
      else
        let pv := pv.handleEntryExpiry w.ts
        if pv.probePktLeft = 0 then .ok ({ conn with pv := some pv }, 0)
        else conn.challenge w pv

/-- The path frames and the PMTUD probe of `ngtcp2_conn_write_vmsg`. -/
def writePathFrames (w : WriteEnv) : Except Stop (Conn × Nat) := do
  let (conn, n) ← writePathResponse w conn.pathChallenge conn
  if n ≠ 0 then .ok (conn, n)
  else do
    let (conn, n) ← conn.writePathChallenge w
    if n ≠ 0 then .ok (conn, n)
    else if conn.pmtud && conn.current.validated then .ok (conn.sendUncounted w.probeLen, w.probeLen)
    else .ok (conn, 0)

/-- `conn_write_pkt`, and `conn_write_ack_pkt` if it wrote nothing. -/
def writeShortPkt (w : WriteEnv) (destlen origlen : Nat) : Conn :=
  let n := min w.pktLen destlen
  if n = 0 then conn.sendUncounted (min w.ackLen origlen) else conn.sendCurrent n

/-- The packets to the current path; `res` bytes of Handshake packets are before them in the buffer. -/
def writePkts (w : WriteEnv) (res destlen : Nat) : Except Stop Conn := do
  let origlen ← conn.limit conn.current w.shaped
  let destlen ← conn.limit conn.current destlen
  let handshakeLen := if w.exceedCwnd then origlen else destlen
  if res = 0 ∧ w.remnants then
    let n := min w.handshakeLen handshakeLen
    let conn := conn.sendCurrent n
    if n ≠ 0 then
      if w.stopAfterHandshake then .ok conn else .ok (conn.sendCurrent (min w.pktLen (handshakeLen - n)))
    else if handshakeLen = 0 ∧ min w.handshakeAckLen origlen ≠ 0 then .ok (conn.sendCurrent (min w.handshakeAckLen origlen))
    else .ok (conn.writeShortPkt w handshakeLen origlen)
  else if res = 0 then .ok (conn.writeShortPkt w destlen origlen)
  else .ok (conn.sendCurrent (min w.pktLen destlen))

/-- The part of `ngtcp2_conn_write_vmsg` behind the Handshake packets. -/
def writeRest (w : WriteEnv) (res : Nat) : Except Stop Conn :=
  if w.noBudget then conn.writePkts w res 0
  else if res = 0 ∧ w.aggregate = false then do
    let (conn, n) ← conn.writePathFrames w
    if n ≠ 0 then .ok conn else conn.writePkts w res (w.shaped - res)
  else conn.writePkts w res (w.shaped - res)

/-- `ngtcp2_conn_write_vmsg`; the 1-RTT packets of a client come after its handshake is completed. -/
def writeVmsg (w : WriteEnv) : Except Stop Conn :=
  match conn.state with
  | .closing => .ok conn
  | .handshake => do
      let len ← conn.limit conn.current w.shaped
      if (← conn.limit conn.current 1) = 0 then .ok conn
      else if w.pacingAllowed then
        let n := min w.handshakeLen len
        if conn.server && w.txKey then (conn.sendCurrent n).writeRest w n else .ok (conn.sendCurrent n)
      else .ok (conn.sendCurrent (min w.handshakeAckLen len))
  | .postHandshake =>
      if w.pacingAllowed then conn.writeRest w 0
      else do
        let len ← conn.limit conn.current w.shaped
        .ok (conn.sendUncounted (min w.ackLen len))

/-- `ngtcp2_conn_write_connection_close_pkt` and `ngtcp2_conn_write_application_close_pkt` -/
def writeConnectionClose (w : WriteEnv) : Except Stop Conn :=
  if conn.state = .closing then .ok conn
  else do
    let len ← (if conn.server then
        (do match ← conn.serverTxLeft conn.current with
          | none => .ok w.shaped
          | some left => .ok (min w.shaped left))
      else .ok w.shaped)
    let n := min w.pktLen len
    if n = 0 then .error (.failed .nobuf) else .ok { conn.sendUncounted n with state := .closing }

/-- `ngtcp2_conn_handle_expiry` -/
def handleExpiry (env : Env) : Except Stop Conn := do
  let dtr ← (if conn.current.cid = [] then .ok conn.dtr else conn.dtr.retireStaleBoundDcid (3 * env.pto) env.ts)
  .ok { conn with
    pv := conn.pv.map fun pv => pv.cancelExpiredTimer env.ts
    dtr := dtr.removeStaleRetiredDcid env.pto env.ts }

/-- A packet of PMTUD is acknowledged, or its last one has expired. -/
def pmtudProgress (payloadlen : Nat) (finished : Bool) : Conn :=
  if conn.pmtud then
    { conn with
      current := { conn.current with maxUdpPayloadSize := max conn.current.maxUdpPayloadSize payloadlen }
      pmtud := !finished }
  else conn

/-- A client has completed the handshake: a preferred address of the server comes with the connection
ID of sequence number 1. -/
def clientHandshakeCompleted (preferred : Option (List UInt8 × List UInt8)) (token : Option (List UInt8)) (env : Env) :
    Except Stop Conn :=
  if conn.server ∨ conn.state ≠ .handshake then .ok conn
  else do
    let conn ← (match preferred with
      | none => .ok conn
      | some (cid, resetToken) => do
          assert (conn.dtr.unused.length < 8)
          .ok { conn with dtr := conn.dtr.pushUnused 1 cid resetToken, seqgap := Gaptr.push conn.seqgap 1 1 })
    let current := if conn.current.seq = 0 ∧ token.isSome then { conn.current with token := token } else conn.current
    Conn.startPmtudIf { conn with state := .postHandshake, current := current } env

/-- `conn_initiate_migration_precheck` -/
def initiateMigrationPrecheck (localAddr : Nat) (disabled : Bool) : Bool :=
  conn.handshakeConfirmed && !disabled && conn.current.cid ≠ [] && !conn.pv.any Pv.preferredAddr && conn.dtr.unused ≠ [] &&
    conn.current.path.localAddr ≠ localAddr

/-- `ngtcp2_conn_initiate_immediate_migration` -/
def initiateImmediateMigration (path : Path) (disabled : Bool) (env : Env) : Except Stop Conn :=
  if conn.initiateMigrationPrecheck path.localAddr disabled then do
    let conn ← (if conn.pv.isSome then Conn.abortPv { conn with pmtud := false } env.ts else .ok { conn with pmtud := false })
    let conn ← conn.retireActiveDcid conn.current env.ts
    let (dcid, dtr) ← conn.dtr.popUnused
    let dcid := { dcid with path := path }
    let conn := (Conn.addCurrentToHistory { conn with dtr := dtr } env.ts 0).1
    let conn := { conn with current := dcid }
    match conn.findPathHistory path env.ts with
    | some i => (conn.applyValidatedPath i).startPmtudIf env
    | none => .ok { conn with pv := some (Pv.new dcid env.pvTimeout false false) }
  else .ok conn

/-- `ngtcp2_conn_initiate_migration` -/
def initiateMigration (path : Path) (disabled : Bool) (env : Env) : Except Stop Conn :=
  if (conn.findPathHistory path env.ts).isSome then conn.initiateImmediateMigration path disabled env
  else if conn.initiateMigrationPrecheck path.localAddr disabled then do
    let conn ← (if conn.pv.isSome then conn.abortPv env.ts else .ok conn)
    let (dcid, dtr) ← conn.dtr.popUnused
    .ok { conn with dtr := dtr, pv := some (Pv.new { dcid with path := path } env.pvTimeout false false) }
  else .ok conn

/-- A datagram of the handshake: `handshakePkt` says that a Handshake packet in it was processed. When
the handshake is completed, the rest of the datagram, which is `rest` bytes long, is read like any other. -/
structure HandshakeDgram where
  handshakePkt : Bool
  completed : Bool
  rest : Nat
  deriving DecidableEq, Repr

/-- A Handshake packet validates the path. -/
def recvHandshakePkt (path : Path) : Conn :=
  { conn with current := { conn.current with validated := true }, answered := path :: conn.answered }

/-- `conn_read_handshake`; a server completes the handshake here. -/
def readHandshake (path : Path) (dgramlen : Nat) (dgram : HandshakeDgram) (pkt : Option Pkt) (env : Env) : Except Stop Conn :=
  if conn.current.path ≠ path then .ok conn
  else do
    let conn := { conn with current := conn.current.grow dgramlen 0 }
    let conn := if dgram.handshakePkt then conn.recvHandshakePkt path else conn
    let conn ← (if conn.server && dgram.completed then
        Conn.startPmtudIf { conn with state := .postHandshake, handshakeConfirmed := true } env
      else .ok conn)
    if dgram.completed && dgram.rest ≠ 0 then conn.recvCpkt path dgram.rest pkt env else .ok conn

/-- `ngtcp2_conn_read_pkt_legacy` -/
def readPkt (path : Path) (dgramlen : Nat) (dgram : HandshakeDgram) (pkt : Option Pkt) (env : Env) : Except Stop Conn :=
  let conn := { conn with received := Function.update conn.received path (conn.received path + dgramlen) }
  if !conn.server && conn.current.path ≠ path && !conn.pathValidationInProgress path && !conn.dtr.checkPathRetired path then
    .ok conn
  else
    match conn.state with
    | .closing => .ok conn
    | .handshake => conn.readHandshake path dgramlen dgram pkt env
    | .postHandshake => conn.recvCpkt path dgramlen pkt env

end Conn

inductive Input
  | readPkt (path : Path) (dgramlen : Nat) (dgram : Conn.HandshakeDgram) (pkt : Option Pkt) (env : Env)
  | writeVmsg (w : WriteEnv)
  | writeConnectionClose (w : WriteEnv)
  | handleExpiry (env : Env)
  | pmtudProgress (payloadlen : Nat) (finished : Bool)
  | clientHandshakeCompleted (preferred : Option (List UInt8 × List UInt8)) (token : Option (List UInt8)) (env : Env)
  | initiateMigration (path : Path) (disabled : Bool) (env : Env)
  | initiateImmediateMigration (path : Path) (disabled : Bool) (env : Env)
  deriving DecidableEq, Repr

def step (conn : Conn) : Input → Except Stop Conn
  | .readPkt path dgramlen dgram pkt env => conn.readPkt path dgramlen dgram pkt env
  | .writeVmsg w => conn.writeVmsg w
  | .writeConnectionClose w => conn.writeConnectionClose w
  | .handleExpiry env => conn.handleExpiry env
  | .pmtudProgress payloadlen finished => .ok (conn.pmtudProgress payloadlen finished)
  | .clientHandshakeCompleted preferred token env => conn.clientHandshakeCompleted preferred token env
  | .initiateMigration path disabled env => if conn.server then .error .assertion else conn.initiateMigration path disabled env
  | .initiateImmediateMigration path disabled env =>
      if conn.server then .error .assertion else conn.initiateImmediateMigration path disabled env

end Zngtcp2.Migration
