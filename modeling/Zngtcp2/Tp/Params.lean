import Zngtcp2.Lib.Records
import Zngtcp2.Pkt.Decode

namespace Zngtcp2.Tp

open Pkt (Bytes Varint Stop Dec putUintbe)
open Lib.Records (writeAll lenAll)

def minCidlen : Nat := 1

def maxCidlen : Nat := 20

def milliseconds : Nat := 1000000

def maxStreams : Nat := 2 ^ 60

def defaultMaxRecvUdpPayloadSize : Nat := 65527

def defaultAckDelayExponent : Nat := 3

def defaultMaxAckDelay : Nat := 25 * milliseconds

def defaultActiveConnectionIdLimit : Nat := 2

inductive AddrFamily
  | unspec
  | inet
  | inet6
  deriving DecidableEq

/-- `ngtcp2_sockaddr_in` and `ngtcp2_sockaddr_in6`; the port and the address are in network byte order. -/
structure Sockaddr (n : Nat) where
  family : AddrFamily := .unspec
  port : Vector UInt8 2 := .replicate 2 0
  addr : Vector UInt8 n := .replicate n 0
  deriving DecidableEq

structure PreferredAddr where
  cid : Bytes := []
  ipv4 : Sockaddr 4 := {}
  ipv6 : Sockaddr 16 := {}
  ipv4Present : Bool := false
  ipv6Present : Bool := false
  statelessResetToken : Vector UInt8 16 := .replicate 16 0
  deriving DecidableEq

structure VersionInfo where
  chosenVersion : Nat := 0
  availableVersions : Bytes := []
  deriving DecidableEq

@[ext]
structure TransportParams where
  preferredAddr : PreferredAddr := {}
  originalDcid : Bytes := []
  initialScid : Bytes := []
  retryScid : Bytes := []
  initialMaxStreamDataBidiLocal : Nat := 0
  initialMaxStreamDataBidiRemote : Nat := 0
  initialMaxStreamDataUni : Nat := 0
  initialMaxData : Nat := 0
  initialMaxStreamsBidi : Nat := 0
  initialMaxStreamsUni : Nat := 0
  maxIdleTimeout : Nat := 0
  maxUdpPayloadSize : Nat := 0
  activeConnectionIdLimit : Nat := 0
  ackDelayExponent : Nat := 0
  maxAckDelay : Nat := 0
  maxDatagramFrameSize : Nat := 0
  statelessResetTokenPresent : Bool := false
  disableActiveMigration : Bool := false
  originalDcidPresent : Bool := false
  initialScidPresent : Bool := false
  retryScidPresent : Bool := false
  preferredAddrPresent : Bool := false
  statelessResetToken : Vector UInt8 16 := .replicate 16 0
  greaseQuicBit : Bool := false
  versionInfo : VersionInfo := {}
  versionInfoPresent : Bool := false
  deriving DecidableEq

/-- `ngtcp2_transport_params_default` -/
def transportParamsDefault : TransportParams where
  maxUdpPayloadSize := defaultMaxRecvUdpPayloadSize
  activeConnectionIdLimit := defaultActiveConnectionIdLimit
  ackDelayExponent := defaultAckDelayExponent
  maxAckDelay := defaultMaxAckDelay

inductive TransportParamId
  | originalDestinationConnectionId
  | maxIdleTimeout
  | statelessResetToken
  | maxUdpPayloadSize
  | initialMaxData
  | initialMaxStreamDataBidiLocal
  | initialMaxStreamDataBidiRemote
  | initialMaxStreamDataUni
  | initialMaxStreamsBidi
  | initialMaxStreamsUni
  | ackDelayExponent
  | maxAckDelay
  | disableActiveMigration
  | preferredAddress
  | activeConnectionIdLimit
  | initialSourceConnectionId
  | retrySourceConnectionId
  | versionInformation
  | maxDatagramFrameSize
  | greaseQuicBit
  deriving DecidableEq

def TransportParamId.toNat : TransportParamId → Nat
  | .originalDestinationConnectionId => 0x00
  | .maxIdleTimeout => 0x01
  | .statelessResetToken => 0x02
  | .maxUdpPayloadSize => 0x03
  | .initialMaxData => 0x04
  | .initialMaxStreamDataBidiLocal => 0x05
  | .initialMaxStreamDataBidiRemote => 0x06
  | .initialMaxStreamDataUni => 0x07
  | .initialMaxStreamsBidi => 0x08
  | .initialMaxStreamsUni => 0x09
  | .ackDelayExponent => 0x0A
  | .maxAckDelay => 0x0B
  | .disableActiveMigration => 0x0C
  | .preferredAddress => 0x0D
  | .activeConnectionIdLimit => 0x0E
  | .initialSourceConnectionId => 0x0F
  | .retrySourceConnectionId => 0x10
  | .versionInformation => 0x11
  | .maxDatagramFrameSize => 0x20
  | .greaseQuicBit => 0x2AB2

section Writing

/-- `ngtcp2_put_uvarintlen`, with its assertion -/
def putUvarintlen (n : Nat) : Dec Nat :=
  if h : n < 2 ^ 62 then .ok (Pkt.putUvarintlen ⟨n, h⟩) else .error .assertion

/-- `ngtcp2_put_uvarint`, with its assertion -/
def putUvarint (n : Nat) : Dec Bytes :=
  if h : n < 2 ^ 62 then .ok (Pkt.putUvarint ⟨n, h⟩) else .error .assertion

def varintParamlen (id : TransportParamId) (param : Nat) : Dec Nat := do
  let valuelen ← putUvarintlen param
  let idlen ← putUvarintlen id.toNat
  let n ← putUvarintlen valuelen
  .ok (idlen + n + valuelen)

def writeVarintParam (id : TransportParamId) (value : Nat) : Dec Bytes := do
  let type ← putUvarint id.toNat
  let valuelen ← putUvarintlen value
  let n ← putUvarint valuelen
  let bytes ← putUvarint value
  .ok (type ++ n ++ bytes)

def zeroParamlen (id : TransportParamId) : Dec Nat := do
  let idlen ← putUvarintlen id.toNat
  .ok (idlen + 1)

def writeZeroParam (id : TransportParamId) : Dec Bytes := do
  let type ← putUvarint id.toNat
  .ok (type ++ [0])

/-- The length of a parameter whose value has `valuelen` bytes. -/
def bytesParamlen (id : TransportParamId) (valuelen : Nat) : Dec Nat := do
  let idlen ← putUvarintlen id.toNat
  let n ← putUvarintlen valuelen
  .ok (idlen + n + valuelen)

def writeBytesParam (id : TransportParamId) (valuelen : Nat) (value : Bytes) : Dec Bytes := do
  let type ← putUvarint id.toNat
  let n ← putUvarint valuelen
  .ok (type ++ n ++ value)

def cidParamlen (id : TransportParamId) (cid : Bytes) : Dec Nat :=
  bytesParamlen id cid.length

def writeCidParam (id : TransportParamId) (cid : Bytes) : Dec Bytes :=
  if (cid.length = 0 ∨ minCidlen ≤ cid.length) ∧ cid.length ≤ maxCidlen then
    writeBytesParam id cid.length cid
  else .error .assertion

/-- An address, or zeros in place of one that is not present. -/
def writeSockaddr {n : Nat} (present : Bool) (sa : Sockaddr n) : Bytes :=
  if present then sa.addr.toList ++ sa.port.toList else List.replicate n 0 ++ [0, 0]

def preferredAddrlen (addr : PreferredAddr) : Nat :=
  4 + 2 + 16 + 2 + 1 + addr.cid.length + 16

def writePreferredAddr (addr : PreferredAddr) : Bytes :=
  writeSockaddr addr.ipv4Present addr.ipv4 ++ writeSockaddr addr.ipv6Present addr.ipv6 ++
    [UInt8.ofNat addr.cid.length] ++ addr.cid ++ addr.statelessResetToken.toList

def versionInfolen (info : VersionInfo) : Nat :=
  4 + info.availableVersions.length

def writeVersionInfo (info : VersionInfo) : Bytes :=
  putUintbe 4 info.chosenVersion ++ info.availableVersions

/-- What the parameter adds to the length in the first pass of the encoder. -/
def paramlen (params : TransportParams) (id : TransportParamId) : Dec Nat :=
  match id with
  | .originalDestinationConnectionId =>
      if params.originalDcidPresent then cidParamlen id params.originalDcid else .ok 0
  | .statelessResetToken => if params.statelessResetTokenPresent then bytesParamlen id 16 else .ok 0
  | .preferredAddress =>
      if params.preferredAddrPresent then
        if minCidlen ≤ params.preferredAddr.cid.length ∧ params.preferredAddr.cid.length ≤ maxCidlen then
          bytesParamlen id (preferredAddrlen params.preferredAddr)
        else .error .assertion
      else .ok 0
  | .retrySourceConnectionId => if params.retryScidPresent then cidParamlen id params.retryScid else .ok 0
  | .initialSourceConnectionId => if params.initialScidPresent then cidParamlen id params.initialScid else .ok 0
  | .initialMaxStreamDataBidiLocal =>
      if params.initialMaxStreamDataBidiLocal ≠ 0 then varintParamlen id params.initialMaxStreamDataBidiLocal
      else .ok 0
  | .initialMaxStreamDataBidiRemote =>
      if params.initialMaxStreamDataBidiRemote ≠ 0 then varintParamlen id params.initialMaxStreamDataBidiRemote
      else .ok 0
  | .initialMaxStreamDataUni =>
      if params.initialMaxStreamDataUni ≠ 0 then varintParamlen id params.initialMaxStreamDataUni else .ok 0
  | .initialMaxData => if params.initialMaxData ≠ 0 then varintParamlen id params.initialMaxData else .ok 0
  | .initialMaxStreamsBidi =>
      if params.initialMaxStreamsBidi ≠ 0 then varintParamlen id params.initialMaxStreamsBidi else .ok 0
  | .initialMaxStreamsUni =>
      if params.initialMaxStreamsUni ≠ 0 then varintParamlen id params.initialMaxStreamsUni else .ok 0
  | .maxUdpPayloadSize =>
      if params.maxUdpPayloadSize ≠ defaultMaxRecvUdpPayloadSize then varintParamlen id params.maxUdpPayloadSize
      else .ok 0
  | .ackDelayExponent =>
      if params.ackDelayExponent ≠ defaultAckDelayExponent then varintParamlen id params.ackDelayExponent else .ok 0
  | .disableActiveMigration => if params.disableActiveMigration then zeroParamlen id else .ok 0
  | .maxAckDelay =>
      if params.maxAckDelay ≠ defaultMaxAckDelay then varintParamlen id (params.maxAckDelay / milliseconds)
      else .ok 0
  | .maxIdleTimeout =>
      if params.maxIdleTimeout ≠ 0 then varintParamlen id (params.maxIdleTimeout / milliseconds) else .ok 0
  | .activeConnectionIdLimit =>
      if params.activeConnectionIdLimit ≠ 0 ∧ params.activeConnectionIdLimit ≠ defaultActiveConnectionIdLimit then
        varintParamlen id params.activeConnectionIdLimit
      else .ok 0
  | .maxDatagramFrameSize =>
      if params.maxDatagramFrameSize ≠ 0 then varintParamlen id params.maxDatagramFrameSize else .ok 0
  | .greaseQuicBit => if params.greaseQuicBit then zeroParamlen id else .ok 0
  | .versionInformation =>
      if params.versionInfoPresent then bytesParamlen id (versionInfolen params.versionInfo) else .ok 0

/-- What the second pass writes for the parameter. -/
def writeParam (params : TransportParams) (id : TransportParamId) : Dec Bytes :=
  match id with
  | .originalDestinationConnectionId =>
      if params.originalDcidPresent then writeCidParam id params.originalDcid else .ok []
  | .statelessResetToken =>
      if params.statelessResetTokenPresent then writeBytesParam id 16 params.statelessResetToken.toList else .ok []
  | .preferredAddress =>
      if params.preferredAddrPresent then
        writeBytesParam id (preferredAddrlen params.preferredAddr) (writePreferredAddr params.preferredAddr)
      else .ok []
  | .retrySourceConnectionId => if params.retryScidPresent then writeCidParam id params.retryScid else .ok []
  | .initialSourceConnectionId =>
      if params.initialScidPresent then writeCidParam id params.initialScid else .ok []
  | .initialMaxStreamDataBidiLocal =>
      if params.initialMaxStreamDataBidiLocal ≠ 0 then writeVarintParam id params.initialMaxStreamDataBidiLocal
      else .ok []
  | .initialMaxStreamDataBidiRemote =>
      if params.initialMaxStreamDataBidiRemote ≠ 0 then writeVarintParam id params.initialMaxStreamDataBidiRemote
      else .ok []
  | .initialMaxStreamDataUni =>
      if params.initialMaxStreamDataUni ≠ 0 then writeVarintParam id params.initialMaxStreamDataUni else .ok []
  | .initialMaxData => if params.initialMaxData ≠ 0 then writeVarintParam id params.initialMaxData else .ok []
  | .initialMaxStreamsBidi =>
      if params.initialMaxStreamsBidi ≠ 0 then writeVarintParam id params.initialMaxStreamsBidi else .ok []
  | .initialMaxStreamsUni =>
      if params.initialMaxStreamsUni ≠ 0 then writeVarintParam id params.initialMaxStreamsUni else .ok []
  | .maxUdpPayloadSize =>
      if params.maxUdpPayloadSize ≠ defaultMaxRecvUdpPayloadSize then writeVarintParam id params.maxUdpPayloadSize
      else .ok []
  | .ackDelayExponent =>
      if params.ackDelayExponent ≠ defaultAckDelayExponent then writeVarintParam id params.ackDelayExponent
      else .ok []
  | .disableActiveMigration => if params.disableActiveMigration then writeZeroParam id else .ok []
  | .maxAckDelay =>
      if params.maxAckDelay ≠ defaultMaxAckDelay then writeVarintParam id (params.maxAckDelay / milliseconds)
      else .ok []
  | .maxIdleTimeout =>
      if params.maxIdleTimeout ≠ 0 then writeVarintParam id (params.maxIdleTimeout / milliseconds) else .ok []
  | .activeConnectionIdLimit =>
      if params.activeConnectionIdLimit ≠ 0 ∧ params.activeConnectionIdLimit ≠ defaultActiveConnectionIdLimit then
        writeVarintParam id params.activeConnectionIdLimit
      else .ok []
  | .maxDatagramFrameSize =>
      if params.maxDatagramFrameSize ≠ 0 then writeVarintParam id params.maxDatagramFrameSize else .ok []
  | .greaseQuicBit => if params.greaseQuicBit then writeZeroParam id else .ok []
  | .versionInformation =>
      if params.versionInfoPresent then
        writeBytesParam id (versionInfolen params.versionInfo) (writeVersionInfo params.versionInfo)
      else .ok []

/-- The order in which both passes go through the parameters. -/
def encodeOrder : List TransportParamId :=
  [.originalDestinationConnectionId, .statelessResetToken, .preferredAddress, .retrySourceConnectionId,
    .initialSourceConnectionId, .initialMaxStreamDataBidiLocal, .initialMaxStreamDataBidiRemote,
    .initialMaxStreamDataUni, .initialMaxData, .initialMaxStreamsBidi, .initialMaxStreamsUni,
    .maxUdpPayloadSize, .ackDelayExponent, .disableActiveMigration, .maxAckDelay, .maxIdleTimeout,
    .activeConnectionIdLimit, .maxDatagramFrameSize, .greaseQuicBit, .versionInformation]

/-- `ngtcp2_transport_params_encode_versioned`: the length it returns and the bytes it writes to `dest`, which
is the size of the buffer, or `none` for the null pointer. -/
def encode (dest : Option Nat) (params : TransportParams) : Dec (Nat × Bytes) := do
  let len ← lenAll (paramlen params) encodeOrder
  match dest with
  | none => .ok (len, [])
  | some destlen =>
      if destlen < len then .error (.err .nobuf)
      else do
        let bytes ← writeAll (writeParam params) encodeOrder
        if bytes.length = len then .ok (len, bytes) else .error .assertion

end Writing

section Conditions

def Sockaddr.IsZero {n : Nat} (sa : Sockaddr n) : Prop :=
  sa.port = .replicate 2 0 ∧ sa.addr = .replicate n 0

/-- The available versions are the bytes of nonzero versions. -/
structure VersionInfo.Valid (info : VersionInfo) : Prop where
  chosen_pos : 0 < info.chosenVersion
  chosen_lt : info.chosenVersion < 2 ^ 32
  available : ∃ versions : List Nat, (∀ v ∈ versions, 0 < v ∧ v < 2 ^ 32) ∧
    info.availableVersions = versions.flatMap (putUintbe 4)
  len_lt : versionInfolen info < 2 ^ 62

/-- The values that are present are ones that their fields may have. -/
structure TransportParams.InRange (params : TransportParams) : Prop where
  initialMaxStreamDataBidiLocal : params.initialMaxStreamDataBidiLocal < 2 ^ 62
  initialMaxStreamDataBidiRemote : params.initialMaxStreamDataBidiRemote < 2 ^ 62
  initialMaxStreamDataUni : params.initialMaxStreamDataUni < 2 ^ 62
  initialMaxData : params.initialMaxData < 2 ^ 62
  initialMaxStreamsBidi : params.initialMaxStreamsBidi ≤ maxStreams
  initialMaxStreamsUni : params.initialMaxStreamsUni ≤ maxStreams
  maxIdleTimeout : params.maxIdleTimeout < 2 ^ 64
  maxUdpPayloadSize : params.maxUdpPayloadSize < 2 ^ 62
  activeConnectionIdLimit : params.activeConnectionIdLimit < 2 ^ 62
  ackDelayExponent : params.ackDelayExponent ≤ 20
  maxAckDelay : ∃ n, n < 16384 ∧ params.maxAckDelay = n * milliseconds
  maxDatagramFrameSize : params.maxDatagramFrameSize < 2 ^ 62
  originalDcid : params.originalDcidPresent → params.originalDcid.length ≤ maxCidlen
  initialScid : params.initialScidPresent → params.initialScid.length ≤ maxCidlen
  retryScid : params.retryScidPresent → params.retryScid.length ≤ maxCidlen
  preferredCid : params.preferredAddrPresent → params.preferredAddr.cid.length ≤ maxCidlen
  versionInfo : params.versionInfoPresent → params.versionInfo.Valid

/-- An address that is present belongs to its family and is not all zero. -/
def Sockaddr.Valid {n : Nat} (family : AddrFamily) (sa : Sockaddr n) (present : Bool) : Prop :=
  present → sa.family = family ∧ ¬ sa.IsZero

/-- The timeout is whole milliseconds, and so on: values that lose nothing when they are written. -/
structure TransportParams.Writable (params : TransportParams) : Prop extends params.InRange where
  wholeIdleTimeout : params.maxIdleTimeout % milliseconds = 0
  ipv4 : params.preferredAddrPresent → params.preferredAddr.ipv4.Valid .inet params.preferredAddr.ipv4Present
  ipv6 : params.preferredAddrPresent → params.preferredAddr.ipv6.Valid .inet6 params.preferredAddr.ipv6Present

structure TransportParams.WellFormed (params : TransportParams) : Prop extends params.Writable where
  limit_pos : 0 < params.activeConnectionIdLimit

/-- Without the addresses that are not present. -/
def PreferredAddr.present (addr : PreferredAddr) : PreferredAddr :=
  { addr with
    ipv4 := if addr.ipv4Present then addr.ipv4 else {}
    ipv6 := if addr.ipv6Present then addr.ipv6 else {} }

/-- The parameters without data that is not present: the value that the structure stands for. -/
def TransportParams.present (params : TransportParams) : TransportParams :=
  { params with
    preferredAddr := if params.preferredAddrPresent then params.preferredAddr.present else {}
    originalDcid := if params.originalDcidPresent then params.originalDcid else []
    initialScid := if params.initialScidPresent then params.initialScid else []
    retryScid := if params.retryScidPresent then params.retryScid else []
    statelessResetToken :=
      if params.statelessResetTokenPresent then params.statelessResetToken else .replicate 16 0
    versionInfo := if params.versionInfoPresent then params.versionInfo else {} }

end Conditions

end Zngtcp2.Tp
