import Zngtcp2.Err
import Zngtcp2.Pkt.Conv
import Zngtcp2.Pkt.Ppe

namespace Zngtcp2.Pkt

def maxPktNum : Nat :=
  2 ^ 62 - 1

/-- The header of a packet that is to be protected, within the bounds of its C types. -/
structure TxHd where
  hd : PktHd
  dcid_le : hd.dcid.length ≤ 20
  scid_le : hd.scid.length ≤ 20
  version_lt : hd.version < 2 ^ 32
  token_lt : hd.token.length < 2 ^ 62
  len_lt : hd.len < 2 ^ 30
  numlen_pos : 1 ≤ hd.pktNumlen
  numlen_le : hd.pktNumlen ≤ 4
  num_le : hd.pktNum ≤ maxPktNum
  type_long : hd.longForm = true → hd.type = .initial ∨ hd.type = .zeroRtt ∨ hd.type = .handshake
  type_short : hd.longForm = false → hd.type = .oneRtt
  keyPhase_short : hd.keyPhase = true → hd.longForm = false

/-- Unsupported versions share the types of QUIC v1, so that a packet can elicit Version Negotiation. -/
def pktVersionedType (version : Nat) (type : PktType) : UInt8 :=
  if version = protoVerV2 then
    match type with
    | .initial => 1
    | .zeroRtt => 2
    | .handshake => 3
    | _ => 0
  else
    match type with
    | .initial => 0
    | .zeroRtt => 1
    | .handshake => 2
    | _ => 3

namespace TxHd

def tokenlen (h : TxHd) : Varint :=
  ⟨h.hd.token.length, h.token_lt⟩

def tokenField (h : TxHd) : Bytes :=
  if h.hd.type = .initial then putUvarint h.tokenlen ++ h.hd.token else []

def firstLong (h : TxHd) : UInt8 :=
  (0x80 : UInt8) ||| (pktVersionedType h.hd.version h.hd.type <<< 4) ||| UInt8.ofNat (h.hd.pktNumlen - 1) |||
    (if h.hd.fixedBitClear then 0 else 0x40)

def firstShort (h : TxHd) : UInt8 :=
  UInt8.ofNat (h.hd.pktNumlen - 1) ||| (if h.hd.fixedBitClear then 0 else 0x40) |||
    (if h.hd.keyPhase then 0x04 else 0)

/-- The header up to the Length field. -/
def longPrelude (h : TxHd) (first : UInt8) : Bytes :=
  first :: (putUintbe 4 h.hd.version ++ (UInt8.ofNat h.hd.dcid.length :: (h.hd.dcid ++
    (UInt8.ofNat h.hd.scid.length :: (h.hd.scid ++ h.tokenField)))))

def pktNumField (h : TxHd) : Bytes :=
  putUintbe h.hd.pktNumlen h.hd.pktNum

/-- The bytes that `ngtcp2_pkt_encode_hd_long` writes if they fit. -/
def encodeHdLong (h : TxHd) : Bytes :=
  h.longPrelude h.firstLong ++ (putUvarint30 h.hd.len ++ h.pktNumField)

/-- The bytes that `ngtcp2_pkt_encode_hd_short` writes if they fit. -/
def encodeHdShort (h : TxHd) : Bytes :=
  h.firstShort :: (h.hd.dcid ++ h.pktNumField)

end TxHd

/-- The packet encoder with the header that it wrote to the packet buffer. -/
structure TxPkt where
  ppe : Ppe
  dgramOffset : Nat
  hdBytes : Bytes
  lenOffset : Nat
  pktNumOffset : Nat
  pktNumlen : Nat
  pktNum : Nat

namespace TxPkt

def pktLengthlen : Nat := 4

/-- `ngtcp2_ppe_encode_hd` on an encoder that `ngtcp2_ppe_init` set up. -/
def encodeHd (cap maxOverhead dgramOffset : Nat) (h : TxHd) : Except Rv TxPkt :=
  let lenOffset :=
    if h.hd.longForm then
      1 + 4 + 1 + h.hd.dcid.length + 1 + h.hd.scid.length +
        (if h.hd.type = .initial then putUvarintlen h.tokenlen + h.hd.token.length else 0)
    else 0
  let pktNumOffset := if h.hd.longForm then lenOffset + pktLengthlen else 1 + h.hd.dcid.length
  let hdBytes := if h.hd.longForm then h.encodeHdLong else h.encodeHdShort
  match Ppe.encodeHd { cap := cap, maxOverhead := maxOverhead } hdBytes.length pktNumOffset with
  | (.ok, ppe) => .ok ⟨ppe, dgramOffset, hdBytes, lenOffset, pktNumOffset, h.hd.pktNumlen, h.hd.pktNum⟩
  | (rv, _) => .error rv

def pktLen (t : TxPkt) : Nat :=
  t.ppe.hdlen + t.ppe.payloadlen

/-- The end of the padding functions: `len` is what the caller asks for. -/
def pad (t : TxPkt) (len : Nat) : Except Fault (Nat × TxPkt) :=
  let pktlen := t.pktLen + t.ppe.maxOverhead
  let left := min t.ppe.plainLeft t.ppe.packetPlainLeft
  let minPktlen := t.pktNumOffset + 4 + Ppe.hpSamplelen
  -- The sample for header protection has to fit.
  let len := if pktlen < minPktlen then max len (minPktlen - pktlen) else len
  if left < len then .error .assertion
  else
    .ok (len, { t with ppe := { t.ppe with
      plain := t.ppe.plain ++ List.replicate len 0
      payloadlen := t.ppe.payloadlen + len } })

def paddingSize (t : TxPkt) (n : Nat) : Except Fault (Nat × TxPkt) :=
  let pktlen := t.pktLen + t.ppe.maxOverhead
  let left := min t.ppe.plainLeft t.ppe.packetPlainLeft
  t.pad (min n (t.pktLen + left + t.ppe.maxOverhead) - pktlen)

def dgramPaddingSize (t : TxPkt) (n : Nat) : Except Fault (Nat × TxPkt) :=
  let dgramlen := t.dgramOffset + (t.pktLen + t.ppe.maxOverhead)
  let left := min t.ppe.plainLeft t.ppe.packetPlainLeft
  t.pad (min n (t.dgramOffset + t.pktLen + left + t.ppe.maxOverhead) - dgramlen)

end TxPkt

/-- The bytes of a frame in the packet. -/
def Frame.wire (fr : Frame) : Bytes :=
  fr.control ++ (fr.zeroCopy.map Payload.bytes).getD []

/-- The packet was given this header and filled with frames and padding, all successfully: `bytes` are
the encoded frames, one after another. -/
inductive Filled (maxOverhead : Nat) (h : TxHd) : TxPkt → Bytes → Prop
  | start {cap dgramOffset : Nat} {t : TxPkt} (ht : TxPkt.encodeHd cap maxOverhead dgramOffset h = .ok t) :
      Filled maxOverhead h t []
  | frame {t : TxPkt} {bytes : Bytes} {fr : Frame} {ppe : Ppe} (ht : Filled maxOverhead h t bytes)
      (hfr : t.ppe.encodeFrame fr = (.ok, ppe)) : Filled maxOverhead h { t with ppe := ppe } (bytes ++ fr.wire)
  | padding {t t' : TxPkt} {bytes : Bytes} {n len : Nat} (ht : Filled maxOverhead h t bytes)
      (hpad : t.paddingSize n = .ok (len, t')) : Filled maxOverhead h t' (bytes ++ List.replicate len 0)
  | dgramPadding {t t' : TxPkt} {bytes : Bytes} {n len : Nat} (ht : Filled maxOverhead h t bytes)
      (hpad : t.dgramPaddingSize n = .ok (len, t')) : Filled maxOverhead h t' (bytes ++ List.replicate len 0)

/-- The packet protection of the application: an AEAD that adds `maxOverhead` bytes and can be undone,
and the mask for header protection. -/
structure Crypto (K H : Type) where
  maxOverhead : Nat
  encrypt : K → Bytes → Bytes → Bytes → Bytes
  decrypt : K → Bytes → Bytes → Bytes → Option Bytes
  hpMask : H → Bytes → Bytes
  decrypt_encrypt : ∀ key nonce aad plain, decrypt key nonce aad (encrypt key nonce aad plain) = some plain
  encrypt_length : ∀ key nonce aad plain, (encrypt key nonce aad plain).length = plain.length + maxOverhead
  hpMask_length : ∀ key sample, 5 ≤ (hpMask key sample).length

structure Keys (K H : Type) where
  key : K
  iv : Bytes
  hp : H

/-- `ngtcp2_crypto_create_nonce` -/
def createNonce (iv : Bytes) (pktNum : Nat) : Bytes :=
  iv.take (iv.length - 8) ++ List.zipWith (· ^^^ ·) (iv.drop (iv.length - 8)) (putUintbe 8 pktNum)

def xorFirst (m : UInt8) : Bytes → Bytes
  | [] => []
  | b :: bs => (b ^^^ m) :: bs

/-- Applies the mask to the packet number at `off`. -/
def xorPktNum (off numlen : Nat) (mask pkt : Bytes) : Bytes :=
  pkt.take off ++ List.zipWith (· ^^^ ·) ((pkt.drop off).take numlen) ((mask.drop 1).take numlen) ++
    pkt.drop (off + numlen)

/-- The bits of the first byte that are protected. -/
def firstMask (longForm : Bool) (mask : Bytes) : UInt8 :=
  mask.getD 0 0 &&& (if longForm then 0x0F else 0x1F)

def hpSample (pktNumOffset : Nat) (pkt : Bytes) : Bytes :=
  (pkt.drop (pktNumOffset + 4)).take Ppe.hpSamplelen

section Sender

variable {K H : Type} (crypto : Crypto K H) (keys : Keys K H)

namespace TxPkt

/-- The header once the Length field is filled in. It is the additional data. -/
def header (t : TxPkt) : Bytes :=
  if t.lenOffset = 0 then t.hdBytes
  else
    t.hdBytes.take t.lenOffset ++
      (putUvarint30 ((t.ppe.payloadlen + t.pktNumlen + t.ppe.maxOverhead) % 2 ^ 16) ++
        t.hdBytes.drop (t.lenOffset + pktLengthlen))

def nonce (t : TxPkt) : Bytes :=
  createNonce keys.iv t.pktNum

/-- `ngtcp2_ppe_final`, with the bytes of the packet. -/
def final (t : TxPkt) : Except Rv Bytes :=
  match t.ppe.flushControl with
  | (.ok, ppe) =>
      let plain := (ppe.plainv.map PlainV.bytes).flatten
      let pkt := t.header ++ crypto.encrypt keys.key (t.nonce keys) t.header plain
      let mask := crypto.hpMask keys.hp (hpSample t.pktNumOffset pkt)
      if mask.length < 5 then .error .bufContract
      else .ok (xorPktNum t.pktNumOffset t.pktNumlen mask (xorFirst (firstMask (isLongForm pkt) mask) pkt))
  | (rv, _) => .error rv

end TxPkt

end Sender

section Receiver

variable {K H : Type} (crypto : Crypto K H) (keys : Keys K H)

/-- `decrypt_hp`: the length of the header, the header with what was protected, and the packet with
its header in the clear. -/
def decryptHp (hd : PktHd) (pkt : Bytes) (pktNumOffset : Nat) : Except Err (Nat × PktHd × Bytes) :=
  if pkt.length < pktNumOffset + 4 + Ppe.hpSamplelen then .error .proto
  else
    let mask := crypto.hpMask keys.hp (hpSample pktNumOffset pkt)
    let pkt := xorFirst (firstMask hd.longForm mask) pkt
    let c := pkt.getD 0 0
    let hd := if hd.longForm = false ∧ c &&& 0x04 ≠ 0 then { hd with keyPhase := true } else hd
    let pktNumlen := (c &&& 0x03).toNat + 1
    if pkt.length < pktNumOffset + pktNumlen then .error .proto
    else
      let pkt := xorPktNum pktNumOffset pktNumlen mask pkt
      .ok (pktNumOffset + pktNumlen,
        { hd with pktNumlen := pktNumlen, pktNum := getUintbe ((pkt.drop pktNumOffset).take pktNumlen) }, pkt)

/-- `ngtcp2_pkt_adjust_pkt_num`; the largest packet number is -1 if there is none. -/
def adjustPktNum (largest : Int) (pktNum pktNumlen : Nat) : Except Fault Nat :=
  let expected := (largest + 1).toNat
  let win := 2 ^ (pktNumlen * 8)
  let hwin := win / 2
  let cand := expected / win * win ||| pktNum
  if cand + hwin ≤ expected then
    if cand ≤ 2 ^ 62 - 1 - win then .ok (cand + win) else .error .assertion
  else if expected + hwin < cand ∧ win ≤ cand then .ok (cand - win)
  else .ok cand

/-- What is known of a packet after its payload is decrypted. -/
structure Unprotected where
  hd : PktHd
  nonce : Bytes
  aad : Bytes
  plain : Bytes

/-- `conn_decrypt_pkt` on a packet whose header, of `hdpktlen` bytes, is in the clear. -/
def decryptPkt (hd : PktHd) (pkt : Bytes) (hdpktlen : Nat) : Except Err Unprotected :=
  let payload := pkt.drop hdpktlen
  if payload.length < crypto.maxOverhead then .error .bufContract
  else
    let nonce := createNonce keys.iv hd.pktNum
    let aad := pkt.take hdpktlen
    match crypto.decrypt keys.key nonce aad payload with
    | none => .error .decrypt
    | some plain => .ok ⟨hd, nonce, aad, plain⟩

/-- What `conn_recv_pkt` does to a packet with a decoded header, of `nread` bytes up to the packet
number, before it looks at the frames. -/
def unprotectPayload (largest : Int) (hd : PktHd) (pkt : Bytes) (nread : Nat) : Except Fault (Except Err Unprotected) :=
  match decryptHp crypto keys hd pkt nread with
  | .error _ => .ok (.error .discardPkt)
  | .ok (hdpktlen, hd, pkt) =>
      match adjustPktNum largest hd.pktNum hd.pktNumlen with
      | .error f => .error f
      | .ok pktNum =>
          if maxPktNum < pktNum then .ok (.error .discardPkt)
          else .ok (decryptPkt crypto keys { hd with pktNum := pktNum } pkt hdpktlen)

/-- The same from the bytes of the packet, where the connection has no objection to the header.
`dcidlen` is the length of the connection IDs that the endpoint issues. -/
def unprotectPkt (dcidlen : Nat) (largest : Int) (pkt : Bytes) : Except Fault (Except Err Unprotected) :=
  if isLongForm pkt then
    match decodeHdLong pkt with
    | none => .ok (.error .discardPkt)
    | some (nread, hd) =>
        if pkt.length < nread + hd.len then .ok (.error .discardPkt)
        else unprotectPayload crypto keys largest hd (pkt.take (nread + hd.len)) nread
  else
    match decodeHdShort pkt dcidlen with
    | none => .ok (.error .discardPkt)
    | some (nread, hd) => unprotectPayload crypto keys largest hd pkt nread

end Receiver

end Zngtcp2.Pkt
