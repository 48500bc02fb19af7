import Mathlib.Tactic.Ring
import Mathlib.Data.List.Basic

namespace Zngtcp2.Pkt

abbrev Bytes := List UInt8

/-- The integers that `ngtcp2_put_uvarint` encodes; its assertion holds of them. -/
abbrev Varint := { n : Nat // n < 2 ^ 62 }

def putUvarintlen (n : Varint) : Nat :=
  if n.1 < 64 then 1
  else if n.1 < 16384 then 2
  else if n.1 < 1073741824 then 4
  else 8

/-- The `k` low bytes of `n`, the most significant first. -/
def putUintbe : Nat → Nat → Bytes
  | 0, _ => []
  | k + 1, n => UInt8.ofNat (n / 256 ^ k % 256) :: putUintbe k n

def orHead (mask : UInt8) : Bytes → Bytes
  | [] => []
  | b :: bs => (b ||| mask) :: bs

def putUvarint (n : Varint) : Bytes :=
  if n.1 < 64 then putUintbe 1 n.1
  else if n.1 < 16384 then orHead 0x40 (putUintbe 2 n.1)
  else if n.1 < 1073741824 then orHead 0x80 (putUintbe 4 n.1)
  else orHead 0xC0 (putUintbe 8 n.1)

@[simp]
theorem putUintbe_length (k n : Nat) : (putUintbe k n).length = k := by
  induction k with
  | zero => rfl
  | succ k ih => rw [putUintbe, List.length_cons, ih]

@[simp]
theorem orHead_length (mask : UInt8) (bs : Bytes) : (orHead mask bs).length = bs.length := by
  cases bs <;> rfl

@[simp]
theorem putUvarint_length (n : Varint) : (putUvarint n).length = putUvarintlen n := by
  rw [putUvarint, putUvarintlen]
  split_ifs <;> simp

theorem putUvarintlen_pos (n : Varint) : 0 < putUvarintlen n := by
  rw [putUvarintlen]
  split_ifs <;> omega

/-- A piece of data whose length is encodable. -/
structure Payload where
  vecs : List Bytes
  len_lt : vecs.flatten.length < 2 ^ 62

def Payload.bytes (p : Payload) : Bytes :=
  p.vecs.flatten

def Payload.len (p : Payload) : Varint :=
  ⟨p.bytes.length, p.len_lt⟩

/-- A STREAM or CRYPTO frame: the data lies in vectors, or in a retained buffer. -/
structure Stream where
  fin : Bool
  streamId : Varint
  offset : Varint
  data : Payload
  txbuf : Option Payload

structure AckEcn where
  ect0 : Varint
  ect1 : Varint
  ce : Varint

structure Ack where
  largestAck : Varint
  ackDelay : Varint
  firstAckRange : Varint
  ranges : List (Varint × Varint)
  ranges_lt : ranges.length < 2 ^ 62
  ecn : Option AckEcn

structure Datagram where
  data : Payload
  txbuf : Option Payload

/-- The frames that `ngtcp2_pkt_encode_frame` knows. A NEW_TOKEN frame is never empty. -/
inductive Frame
  | stream (fr : Stream)
  | ack (fr : Ack)
  | padding (len : Nat)
  | resetStream (streamId appErrorCode finalSize : Varint)
  | connectionClose (errorCode frameType : Varint) (reason : Payload)
  | connectionCloseApp (errorCode : Varint) (reason : Payload)
  | maxData (maxData : Varint)
  | maxStreamData (streamId maxStreamData : Varint)
  | maxStreamsBidi (maxStreams : Varint)
  | maxStreamsUni (maxStreams : Varint)
  | ping
  | dataBlocked (offset : Varint)
  | streamDataBlocked (streamId offset : Varint)
  | streamsBlockedBidi (maxStreams : Varint)
  | streamsBlockedUni (maxStreams : Varint)
  | newConnectionId (seq retirePriorTo : Varint) (cid : Bytes) (token : Vector UInt8 16)
  | stopSending (streamId appErrorCode : Varint)
  | pathChallenge (data : Vector UInt8 8)
  | pathResponse (data : Vector UInt8 8)
  | crypto (fr : Stream)
  | newToken (token : Payload) (nonempty : token.bytes ≠ [])
  | retireConnectionId (seq : Varint)
  | handshakeDone
  | datagram (fr : Datagram)
  | datagramLen (fr : Datagram)

/-- The flags in the type of a STREAM frame. -/
def streamFlags (fr : Stream) : UInt8 :=
  0x02 ||| (if fr.fin then 0x01 else 0) ||| (if fr.offset.1 ≠ 0 then 0x04 else 0)

def streamHd (fr : Stream) (datalen : Varint) : Bytes :=
  (streamFlags fr ||| 0x08) ::
    (putUvarint fr.streamId ++ (if fr.offset.1 ≠ 0 then putUvarint fr.offset else []) ++ putUvarint datalen)

def encodeStream (fr : Stream) : Bytes :=
  let data := fr.txbuf.getD fr.data
  streamHd fr data.len ++ data.bytes

def encodeAck (fr : Ack) : Bytes :=
  (if fr.ecn.isSome then 0x03 else 0x02) ::
    (putUvarint fr.largestAck ++ putUvarint fr.ackDelay ++ putUvarint ⟨fr.ranges.length, fr.ranges_lt⟩ ++
      putUvarint fr.firstAckRange ++ (fr.ranges.map (fun r => putUvarint r.1 ++ putUvarint r.2)).flatten ++
      match fr.ecn with
      | some ecn => putUvarint ecn.ect0 ++ putUvarint ecn.ect1 ++ putUvarint ecn.ce
      | none => [])

/-- Only the vectors of a CRYPTO frame are looked at. -/
def encodeCrypto (fr : Stream) : Bytes :=
  0x06 :: (putUvarint fr.offset ++ putUvarint fr.data.len ++ fr.data.bytes)

/-- The bytes that `ngtcp2_pkt_encode_frame` writes. -/
def encodeFrame : Frame → Bytes
  | .stream fr => encodeStream fr
  | .ack fr => encodeAck fr
  | .padding len => List.replicate len 0
  | .resetStream streamId appErrorCode finalSize =>
      0x04 :: (putUvarint streamId ++ putUvarint appErrorCode ++ putUvarint finalSize)
  | .connectionClose errorCode frameType reason =>
      0x1C :: (putUvarint errorCode ++ putUvarint frameType ++ putUvarint reason.len ++ reason.bytes)
  | .connectionCloseApp errorCode reason => 0x1D :: (putUvarint errorCode ++ putUvarint reason.len ++ reason.bytes)
  | .maxData maxData => 0x10 :: putUvarint maxData
  | .maxStreamData streamId maxStreamData => 0x11 :: (putUvarint streamId ++ putUvarint maxStreamData)
  | .maxStreamsBidi maxStreams => 0x12 :: putUvarint maxStreams
  | .maxStreamsUni maxStreams => 0x13 :: putUvarint maxStreams
  | .ping => [0x01]
  | .dataBlocked offset => 0x14 :: putUvarint offset
  | .streamDataBlocked streamId offset => 0x15 :: (putUvarint streamId ++ putUvarint offset)
  | .streamsBlockedBidi maxStreams => 0x16 :: putUvarint maxStreams
  | .streamsBlockedUni maxStreams => 0x17 :: putUvarint maxStreams
  | .newConnectionId seq retirePriorTo cid token =>
      0x18 :: (putUvarint seq ++ putUvarint retirePriorTo ++ [UInt8.ofNat cid.length] ++ cid ++ token.toList)
  | .stopSending streamId appErrorCode => 0x05 :: (putUvarint streamId ++ putUvarint appErrorCode)
  | .pathChallenge data => 0x1A :: data.toList
  | .pathResponse data => 0x1B :: data.toList
  | .crypto fr => encodeCrypto fr
  | .newToken token _ => 0x07 :: (putUvarint token.len ++ token.bytes)
  | .retireConnectionId seq => 0x19 :: putUvarint seq
  | .handshakeDone => [0x1E]
  | .datagram fr => 0x30 :: fr.data.bytes
  | .datagramLen fr => 0x31 :: (putUvarint fr.data.len ++ fr.data.bytes)

/-- The retained buffer of a frame that is sent without copying its data. -/
def Frame.zeroCopy : Frame → Option Payload
  | .stream fr => fr.txbuf
  | .datagramLen fr => fr.txbuf
  | _ => none

def datagramHd (datalen : Varint) : Bytes :=
  0x31 :: putUvarint datalen

/-- The bytes of a frame that are written to the plaintext storage: its header if the data is not
copied, all of it otherwise. -/
def Frame.control : Frame → Bytes
  | .stream fr =>
      match fr.txbuf with
      | some buf => streamHd fr buf.len
      | none => encodeStream fr
  | .datagramLen fr =>
      match fr.txbuf with
      | some buf => datagramHd buf.len
      | none => encodeFrame (.datagramLen fr)
  | fr => encodeFrame fr

/-- The length of the frame in the packet. -/
def Frame.encodedLen (fr : Frame) : Nat :=
  fr.control.length + (fr.zeroCopy.map (fun buf => buf.bytes.length)).getD 0

theorem Frame.control_pos {fr : Frame} {buf : Payload} (h : fr.zeroCopy = some buf) : 0 < fr.control.length := by
  cases fr with
  | stream fr =>
      have htx : fr.txbuf = some buf := h
      simp only [Frame.control, htx, streamHd, List.length_cons]
      omega
  | datagramLen fr =>
      have htx : fr.txbuf = some buf := h
      simp only [Frame.control, htx, datagramHd, List.length_cons]
      omega
  | _ => cases h

theorem encodeStream_length (fr : Stream) :
    (encodeStream fr).length = 1 + putUvarintlen fr.streamId +
      (if fr.offset.1 ≠ 0 then putUvarintlen fr.offset else 0) + putUvarintlen (fr.txbuf.getD fr.data).len +
      (fr.txbuf.getD fr.data).bytes.length := by
  simp only [encodeStream, streamHd, List.length_append, List.length_cons, putUvarint_length]
  split <;> simp <;> omega

theorem encodeCrypto_length (fr : Stream) :
    (encodeCrypto fr).length = 1 + putUvarintlen fr.offset + putUvarintlen fr.data.len + fr.data.bytes.length := by
  simp only [encodeCrypto, List.length_append, List.length_cons, putUvarint_length]
  omega

/-- A STREAM frame takes the same room with and without its data copied. -/
theorem stream_encodedLen (fr : Stream) : (Frame.stream fr).encodedLen = (encodeStream fr).length := by
  cases h : fr.txbuf with
  | none => simp [Frame.encodedLen, Frame.control, Frame.zeroCopy, h]
  | some buf => simp [Frame.encodedLen, Frame.control, Frame.zeroCopy, h, encodeStream]

/-- The room for the data of a frame whose other fields take `n` bytes; the length field takes as
many bytes as the data needs. -/
def lenMaxDatalen (len left : Nat) : Nat :=
  if left > 8 + 1073741823 ∧ len > 1073741823 then min (min len 4611686018427387903) (left - 8)
  else if left > 4 + 16383 ∧ len > 16383 then min (min len 1073741823) (left - 4)
  else if left > 2 + 63 ∧ len > 63 then min (min len 16383) (left - 2)
  else min (min len 63) (left - 1)

/-- `ngtcp2_pkt_stream_max_datalen`, with `none` for `(size_t)-1`. -/
def streamMaxDatalen (streamId offset : Varint) (len left : Nat) : Option Nat :=
  let n := 1 + putUvarintlen streamId + if offset.1 ≠ 0 then putUvarintlen offset else 0
  if left ≤ n then none else some (lenMaxDatalen len (left - n))

/-- `ngtcp2_pkt_crypto_max_datalen`, which never allows an empty frame. -/
def cryptoMaxDatalen (offset : Varint) (len left : Nat) : Option Nat :=
  let n := 1 + putUvarintlen offset
  if left ≤ n + 1 then none else some (lenMaxDatalen len (left - n))

theorem lenMaxDatalen_spec {len left : Nat} (hleft : 0 < left) (datalen : Varint) (h : datalen.1 ≤ lenMaxDatalen len left) :
    putUvarintlen datalen + datalen.1 ≤ left := by
  rw [lenMaxDatalen] at h
  rw [putUvarintlen]
  split_ifs at h ⊢ <;> omega

theorem stream_fits {fr : Stream} {len left m : Nat} (hm : streamMaxDatalen fr.streamId fr.offset len left = some m)
    (hle : (fr.txbuf.getD fr.data).bytes.length ≤ m) : (Frame.stream fr).encodedLen ≤ left := by
  rw [stream_encodedLen, encodeStream_length]
  simp only [streamMaxDatalen] at hm
  generalize (if fr.offset.1 ≠ 0 then putUvarintlen fr.offset else 0) = k at hm ⊢
  split at hm
  · cases hm
  · rename_i hn
    cases hm
    have hfit := lenMaxDatalen_spec (by omega) (fr.txbuf.getD fr.data).len hle
    simp only [Payload.len] at hfit ⊢
    omega

theorem crypto_fits {fr : Stream} {len left m : Nat} (hm : cryptoMaxDatalen fr.offset len left = some m)
    (hle : fr.data.bytes.length ≤ m) : (Frame.crypto fr).encodedLen ≤ left := by
  simp only [Frame.encodedLen, Frame.control, Frame.zeroCopy, encodeFrame, encodeCrypto_length, Option.map_none,
    Option.getD_none, Nat.add_zero]
  simp only [cryptoMaxDatalen] at hm
  split at hm
  · cases hm
  · rename_i hn
    cases hm
    have hfit := lenMaxDatalen_spec (by omega) fr.data.len hle
    simp only [Payload.len] at hfit ⊢
    omega

end Zngtcp2.Pkt
