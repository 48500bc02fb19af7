import Zngtcp2.Buf
import Zngtcp2.Lib.Epochs
import Zngtcp2.Lib.Run

namespace Zngtcp2.KeyUpdate

/-- `NGTCP2_MAX_PKT_NUM` -/
def maxPktNum : Int :=
  2 ^ 62 - 1

/-- `ngtcp2_crypto_km`. The secret is the one that `gen` calls of `update_key` derive from the first secret
of its direction. -/
structure CryptoKm where
  gen : Nat
  keyPhaseOne : Bool
  pktNum : Int
  useCount : Nat
  deriving DecidableEq, Repr

inductive PktType
  | zeroRtt
  | oneRtt
  deriving DecidableEq, Repr

/-- `ngtcp2_pkt_hd`; the packet number is the full one. -/
structure Hd where
  type : PktType
  pktNum : Int
  keyPhase : Bool
  deriving DecidableEq, Repr

/-- A packet that its sender protected with the key of the generation `gen`. -/
structure Pkt where
  hd : Hd
  gen : Nat
  largestAck : Option Int
  deriving DecidableEq, Repr

/-- The part of a connection that a key update reads or writes. `ppe` is the packet that is being
written, and `confirmedTs` is `none` for `UINT64_MAX`. -/
structure Conn where
  server : Bool
  handshakeConfirmed : Bool
  keyUpdateNotConfirmed : Bool
  keyUpdateInitiator : Bool
  rxCkm : CryptoKm
  txCkm : CryptoKm
  newRxCkm : Option CryptoKm
  newTxCkm : Option CryptoKm
  oldRxCkm : Option CryptoKm
  confirmedTs : Option Nat
  earlyCkm : Bool
  maxEncryption : Nat
  maxDecryptionFailure : Nat
  decryptionFailureCount : Nat
  lastPktNum : Int
  maxRxPktNum : Int
  received : List Int
  ppe : Option Pkt
  deriving DecidableEq, Repr

/-- `ngtcp2_tstamp_not_elapsed` -/
def tstampNotElapsed (base : Option Nat) (d ts : Nat) : Bool :=
  match base with
  | none => false
  | some base => uint64Max ≤ base + d || ts < base + d

/-- What the callback `update_key` and the flags of `conn_prepare_key_update` make of a key. -/
def CryptoKm.update (ckm : CryptoKm) (keyPhaseOne : Bool) : CryptoKm :=
  ⟨ckm.gen + 1, keyPhaseOne, -1, 0⟩

namespace Conn

variable (c : Conn)

/-- `conn_rotate_keys` -/
def rotateKeys (pktNum : Int) (initiator : Bool) : Except Fault Conn :=
  match c.newRxCkm, c.newTxCkm, c.oldRxCkm, c.ppe with
  | some newRxCkm, some newTxCkm, none, none =>
      .ok { c with
        oldRxCkm := some c.rxCkm
        rxCkm := { newRxCkm with pktNum := pktNum }
        newRxCkm := none
        txCkm := { newTxCkm with pktNum := c.lastPktNum + 1 }
        newTxCkm := none
        keyUpdateNotConfirmed := true
        keyUpdateInitiator := c.keyUpdateInitiator || initiator }
  | _, _, _, _ => .error .assertion

/-- `conn_initiate_key_update`; `none` is `NGTCP2_ERR_INVALID_STATE`. -/
def initiateKeyUpdate (pto ts : Nat) : Except Fault (Option Conn) :=
  if !c.handshakeConfirmed || c.keyUpdateNotConfirmed || c.newTxCkm.isNone || c.newRxCkm.isNone ||
      tstampNotElapsed c.confirmedTs (3 * pto) ts then .ok none
  else do
    let c ← c.rotateKeys maxPktNum true
    .ok (some c)

/-- The part of `conn_prepare_key_update` behind the limit of the send key. -/
def installNewKeys (confirmedTs : Option Nat) (pto ts : Nat) (rxCkm txCkm : CryptoKm) : Except Fault Conn :=
  if c.keyUpdateNotConfirmed || tstampNotElapsed confirmedTs pto ts then .ok c
  else if c.newRxCkm.isSome || c.newTxCkm.isSome then
    if c.newRxCkm.isSome && c.newTxCkm.isSome then .ok c else .error .assertion
  else
    .ok { c with
      newRxCkm := some (rxCkm.update (!rxCkm.keyPhaseOne))
      newTxCkm := some (txCkm.update (!rxCkm.keyPhaseOne))
      oldRxCkm := none }

/-- `conn_prepare_key_update`; `none` is `NGTCP2_ERR_AEAD_LIMIT_REACHED`. -/
def prepareKeyUpdate (pto ts : Nat) : Except Fault (Option Conn) :=
  -- the time and the keys are read before the keys may be rotated
  let confirmedTs := c.confirmedTs
  let rxCkm := c.rxCkm
  let txCkm := c.txCkm
  if c.handshakeConfirmed && c.maxEncryption ≤ c.txCkm.useCount then do
    match ← c.initiateKeyUpdate pto ts with
    | none => .ok none
    | some c => some <$> c.installNewKeys confirmedTs pto ts rxCkm txCkm
  else some <$> c.installNewKeys confirmedTs pto ts rxCkm txCkm

/-- `conn_handle_unconfirmed_key_update_from_remote` -/
def handleUnconfirmedKeyUpdateFromRemote (largestAck : Int) (ts : Nat) : Conn :=
  if !c.keyUpdateNotConfirmed || c.keyUpdateInitiator || largestAck < c.rxCkm.pktNum then c
  else { c with keyUpdateNotConfirmed := false, confirmedTs := some ts }

/-- `conn_recv_ack` with the beginning of `ngtcp2_rtb_recv_ack`; `none` is `NGTCP2_ERR_PROTO`. -/
def recvAck (largestAck : Int) (ts : Nat) : Option Conn :=
  if c.lastPktNum < largestAck then none
  else if c.keyUpdateNotConfirmed && c.keyUpdateInitiator && c.txCkm.pktNum ≤ largestAck then
    some { c with keyUpdateNotConfirmed := false, keyUpdateInitiator := false, confirmedTs := some ts }
  else some c

/-- `conn_key_phase_changed` -/
def keyPhaseChanged (hd : Hd) : Bool :=
  c.rxCkm.keyPhaseOne != hd.keyPhase

/-- The key of a 1-RTT packet, or the decision that its decryption fails. -/
inductive Selected
  | current
  | old (ckm : CryptoKm)
  | new (ckm : CryptoKm)
  | failure
  deriving DecidableEq, Repr

/-- The choice of the key in `conn_recv_pkt`. -/
def selectKey (hd : Hd) : Except Fault Selected :=
  if c.keyPhaseChanged hd then
    if hd.pktNum < c.rxCkm.pktNum then
      match c.oldRxCkm with
      | some ckm => .ok (.old ckm)
      | none => .ok .failure
    else if c.maxRxPktNum < hd.pktNum then
      if c.rxCkm.pktNum < hd.pktNum then
        match c.newRxCkm with
        | some ckm => .ok (.new ckm)
        | none => .ok .failure
      else .error .assertion
    else .ok .failure
  else .ok .current

/-- The generation of the selected key. -/
def selectedGen : Selected → Option Nat
  | .current => some c.rxCkm.gen
  | .old ckm => some ckm.gen
  | .new ckm => some ckm.gen
  | .failure => none

/-- The end of `conn_recv_pkt`: the keys rotate, or the first packet number of the key is lowered. -/
def useKey (hd : Hd) : Selected → Except Fault Conn
  | .new _ => c.rotateKeys hd.pktNum false
  | .old ckm => .ok { c with oldRxCkm := some { ckm with pktNum := min ckm.pktNum hd.pktNum } }
  | .current => .ok { c with rxCkm := { c.rxCkm with pktNum := min c.rxCkm.pktNum hd.pktNum } }
  | .failure => .ok c

/-- `pktns_commit_recv_pkt_num` -/
def commitRecvPktNum (pktNum : Int) : Conn :=
  { c with received := pktNum :: c.received, maxRxPktNum := max c.maxRxPktNum pktNum }

/-- What `conn_recv_pkt` returns; an accepted packet comes with the generation of the key that opened it. -/
inductive Recv
  | accepted (pkt : Pkt) (gen : Nat)
  | discarded
  | aeadLimitReached
  | proto
  deriving DecidableEq, Repr

/-- An ideal AEAD: what was sealed is opened by the key of the same generation and with the same header,
and anything else by no key. -/
def openPkt (hd : Hd) (gen : Nat) : Option Pkt → Option Pkt
  | some pkt => if pkt.hd = hd ∧ pkt.gen = gen then some pkt else none
  | none => none

/-- A 1-RTT packet that is not opened. -/
def decryptionFailure : Recv × Conn :=
  let c := { c with decryptionFailureCount := c.decryptionFailureCount + 1 }
  if c.maxDecryptionFailure ≤ c.decryptionFailureCount then (.aeadLimitReached, c) else (.discarded, c)

/-- The ACK frame of a packet. -/
def recvFrames (pkt : Pkt) (ts : Nat) : Option Conn :=
  match pkt.largestAck with
  | none => some c
  | some largestAck => c.recvAck largestAck ts

/-- `conn_recv_pkt` for a 1-RTT packet with the header `hd`. -/
def recvOneRtt (hd : Hd) (sealed : Option Pkt) (ts : Nat) : Except Fault (Recv × Conn) := do
  let key ← c.selectKey hd
  match (c.selectedGen key).bind fun gen => openPkt hd gen sealed with
  | none => .ok c.decryptionFailure
  | some pkt =>
      if hd.pktNum ∈ c.received then .ok (.discarded, c)
      else
        match c.recvFrames pkt ts with
        | none => .ok (.proto, c)
        | some c₁ => do
            let c₂ ← c₁.useKey hd key
            .ok (.accepted pkt pkt.gen, c₂.commitRecvPktNum hd.pktNum)

/-- `conn_recv_pkt` for a 0-RTT packet. -/
def recvZeroRtt (hd : Hd) (sealed : Option Pkt) : Recv × Conn :=
  if !c.server || !c.earlyCkm then (.discarded, c)
  else
    match openPkt hd 0 sealed with
    | none => (.discarded, c)
    | some pkt =>
        if hd.pktNum ∈ c.received then (.discarded, c)
        else if pkt.largestAck.isSome then (.proto, c)
        else (.accepted pkt pkt.gen, c.commitRecvPktNum hd.pktNum)

/-- `conn_recv_pkt` -/
def recvPkt (hd : Hd) (sealed : Option Pkt) (ts : Nat) : Except Fault (Recv × Conn) :=
  if maxPktNum < hd.pktNum then .ok (.discarded, c)
  else
    match hd.type with
    | .oneRtt => c.recvOneRtt hd sealed ts
    | .zeroRtt => .ok (c.recvZeroRtt hd sealed)

/-- `conn_handle_skip_pkt` -/
def skipPkt : Conn :=
  { c with lastPktNum := c.lastPktNum + 1 }

/-- The beginning of a packet, up to its ACK frame. -/
def beginPkt (largestAck : Option Int) (ts : Nat) : Conn :=
  let hd : Hd := ⟨.oneRtt, c.lastPktNum + 1, c.txCkm.keyPhaseOne⟩
  let c := { c with ppe := some ⟨hd, c.txCkm.gen, largestAck⟩ }
  match largestAck with
  | none => c
  | some largestAck => c.handleUnconfirmedKeyUpdateFromRemote largestAck ts

/-- The end of a packet. -/
def finishPkt : Conn :=
  { c with
    txCkm := { c.txCkm with useCount := c.txCkm.useCount + 1 }
    lastPktNum := c.lastPktNum + 1
    ppe := none }

end Conn

open Lib.Run

/-- Who started the key update that made the current keys. -/
inductive Origin
  | handshake
  | self
  | peer
  deriving DecidableEq, Repr

/-- A connection with the packets it has sent, and the packets it has accepted, each with the generation of
the key that opened it. -/
structure Endpoint where
  conn : Conn
  sent : List Pkt
  accepted : List (Pkt × Nat)
  origin : Origin
  deriving DecidableEq, Repr

inductive Role
  | client
  | server
  deriving DecidableEq, Repr

def Role.peer : Role → Role
  | client => server
  | server => client

@[simp]
theorem Role.peer_peer (r : Role) : r.peer.peer = r := by
  cases r <;> rfl

theorem Role.peer_ne (r : Role) : r.peer ≠ r := by
  cases r <;> exact Role.noConfusion

theorem Role.eq_or_peer (r r' : Role) : r' = r ∨ r' = r.peer := by
  cases r <;> cases r' <;> simp [Role.peer]

/-- Two endpoints. What one has sent stays in the network, which may lose, delay, reorder and repeat it. -/
structure Net where
  client : Endpoint
  server : Endpoint
  deriving DecidableEq, Repr

namespace Net

def ep (n : Net) : Role → Endpoint
  | .client => n.client
  | .server => n.server

def put (n : Net) (r : Role) (e : Endpoint) : Net :=
  match r with
  | .client => { n with client := e }
  | .server => { n with server := e }

@[simp]
theorem ep_put_self (n : Net) (r : Role) (e : Endpoint) : (n.put r e).ep r = e := by
  cases r <;> rfl

@[simp]
theorem ep_put_peer (n : Net) (r : Role) (e : Endpoint) : (n.put r e).ep r.peer = n.ep r.peer := by
  cases r <;> rfl

end Net

namespace Endpoint

variable (e : Endpoint)

/-- The endpoint after a call that leaves the connection `c`; keys of another generation come from `origin`. -/
def keep (c : Conn) (origin : Origin) : Endpoint :=
  { e with conn := c, origin := if c.txCkm.gen = e.conn.txCkm.gen then e.origin else origin }

def prepare (pto ts : Nat) : Except Fault Endpoint := do
  match ← e.conn.prepareKeyUpdate pto ts with
  | none => .ok e
  | some c => .ok (e.keep c .self)

def initiate (pto ts : Nat) : Except Fault Endpoint := do
  match ← e.conn.initiateKeyUpdate pto ts with
  | none => .ok e
  | some c => .ok (e.keep c .self)

/-- The endpoint after `conn_recv_pkt`. -/
def recvd (r : Conn.Recv × Conn) : Endpoint :=
  match r.1 with
  | .accepted pkt gen => { e.keep r.2 .peer with accepted := (pkt, gen) :: e.accepted }
  | _ => e.keep r.2 .peer

def recv (hd : Hd) (sealed : Option Pkt) (ts : Nat) : Except Fault Endpoint := do
  let r ← e.conn.recvPkt hd sealed ts
  .ok (e.recvd r)

def finish : Endpoint :=
  { e with conn := e.conn.finishPkt, sent := e.conn.ppe.toList ++ e.sent }

end Endpoint

inductive Act
  | confirm
  | discardEarly
  | prepare (pto ts : Nat)
  | initiate (pto ts : Nat)
  | skip
  | start (largestAck : Option Int) (ts : Nat)
  | finish
  | recv (hd : Hd) (sealed : Option Pkt) (ts : Nat)
  deriving DecidableEq, Repr

def Endpoint.act (e : Endpoint) : Act → Except Fault Endpoint
  | .confirm => .ok { e with conn := { e.conn with handshakeConfirmed := true } }
  | .discardEarly => .ok { e with conn := { e.conn with earlyCkm := false } }
  | .prepare pto ts => e.prepare pto ts
  | .initiate pto ts => e.initiate pto ts
  | .skip => .ok { e with conn := e.conn.skipPkt }
  | .start largestAck ts => .ok { e with conn := e.conn.beginPkt largestAck ts }
  | .finish => .ok e.finish
  | .recv hd sealed ts => e.recv hd sealed ts

/-- What an endpoint may do: a packet is finished after it was begun, and before anything else is done; an
ACK frame acknowledges a packet that was received; only what the peer has sent can be opened. -/
def Allowed (peer e : Endpoint) : Act → Prop
  | .confirm | .discardEarly => True
  | .prepare _ _ | .initiate _ _ => e.conn.ppe = none
  | .skip => e.conn.ppe = none
  | .start largestAck _ => e.conn.ppe = none ∧ e.conn.lastPktNum + 1 < maxPktNum ∧ ∀ n ∈ largestAck, n ∈ e.conn.received
  | .finish => e.conn.ppe.isSome = true
  | .recv hd sealed _ => e.conn.ppe = none ∧ hd.pktNum < maxPktNum ∧ ∀ pkt ∈ sealed, pkt ∈ peer.sent

instance (peer e : Endpoint) (act : Act) : Decidable (Allowed peer e act) := by
  cases act <;> unfold Allowed <;> infer_instance

structure Op where
  role : Role
  act : Act
  deriving DecidableEq, Repr

namespace Net

def step (n : Net) (op : Op) : Except Fault Net := do
  let e ← (n.ep op.role).act op.act
  .ok (n.put op.role e)

def Legal (n : Net) (op : Op) : Prop :=
  Allowed (n.ep op.role.peer) (n.ep op.role) op.act

instance (n : Net) (op : Op) : Decidable (n.Legal op) :=
  inferInstanceAs (Decidable (Allowed _ _ _))

end Net

end Zngtcp2.KeyUpdate
