import Zngtcp2.Buf
import Zngtcp2.Err
import Zngtcp2.Pkt.Hd

namespace Zngtcp2.Pkt

/-- Why a decoder does not return a frame: it returns an error, one of its assertions fails, or it
reads a byte that is not part of the payload. -/
inductive Stop
  | err (e : Err)
  | assertion
  | outOfBounds
  deriving DecidableEq, Repr

abbrev Dec (α : Type) := Except Stop α

/-- Bytes of the payload that a frame refers to. -/
structure Slice where
  off : Nat
  len : Nat
  deriving DecidableEq, Repr

def Slice.bytes (payload : Bytes) (s : Slice) : Bytes :=
  (payload.drop s.off).take s.len

/-- A received frame, with the data of type `β`. -/
inductive RxFrame (β : Type)
  | padding (len : Nat)
  | resetStream (streamId appErrorCode finalSize : Nat)
  | connectionClose (errorCode frameType : Nat) (reason : β)
  | connectionCloseApp (errorCode : Nat) (reason : β)
  | maxData (maxData : Nat)
  | maxStreamData (streamId maxStreamData : Nat)
  | maxStreamsBidi (maxStreams : Nat)
  | maxStreamsUni (maxStreams : Nat)
  | ping
  | dataBlocked (offset : Nat)
  | streamDataBlocked (streamId offset : Nat)
  | streamsBlockedBidi (maxStreams : Nat)
  | streamsBlockedUni (maxStreams : Nat)
  | newConnectionId (seq retirePriorTo : Nat) (cid token : β)
  | stopSending (streamId appErrorCode : Nat)
  | ack (largestAck ackDelay firstAckRange : Nat) (ranges : List (Nat × Nat))
  | ackEcn (largestAck ackDelay firstAckRange : Nat) (ranges : List (Nat × Nat)) (ect0 ect1 ce : Nat)
  | pathChallenge (data : β)
  | pathResponse (data : β)
  | crypto (offset : Nat) (data : β)
  | newToken (token : β)
  | retireConnectionId (seq : Nat)
  | handshakeDone
  | datagram (data : β)
  | datagramLen (data : β)
  | stream (flags : UInt8) (fin : Bool) (streamId offset : Nat) (data : β)
  deriving DecidableEq, Repr

/-- The pieces of data in a frame. -/
def RxFrame.datas {β : Type} : RxFrame β → List β
  | .connectionClose _ _ data | .connectionCloseApp _ data | .pathChallenge data | .pathResponse data
  | .crypto _ data | .newToken data | .datagram data | .datagramLen data | .stream _ _ _ _ data => [data]
  | .newConnectionId _ _ cid token => [cid, token]
  | _ => []

def RxFrame.map {β γ : Type} (f : β → γ) : RxFrame β → RxFrame γ
  | .padding len => .padding len
  | .resetStream streamId appErrorCode finalSize => .resetStream streamId appErrorCode finalSize
  | .connectionClose errorCode frameType reason => .connectionClose errorCode frameType (f reason)
  | .connectionCloseApp errorCode reason => .connectionCloseApp errorCode (f reason)
  | .maxData n => .maxData n
  | .maxStreamData streamId n => .maxStreamData streamId n
  | .maxStreamsBidi maxStreams => .maxStreamsBidi maxStreams
  | .maxStreamsUni maxStreams => .maxStreamsUni maxStreams
  | .ping => .ping
  | .dataBlocked offset => .dataBlocked offset
  | .streamDataBlocked streamId offset => .streamDataBlocked streamId offset
  | .streamsBlockedBidi maxStreams => .streamsBlockedBidi maxStreams
  | .streamsBlockedUni maxStreams => .streamsBlockedUni maxStreams
  | .newConnectionId seq retirePriorTo cid token => .newConnectionId seq retirePriorTo (f cid) (f token)
  | .stopSending streamId appErrorCode => .stopSending streamId appErrorCode
  | .ack largestAck ackDelay firstAckRange ranges => .ack largestAck ackDelay firstAckRange ranges
  | .ackEcn largestAck ackDelay firstAckRange ranges ect0 ect1 ce =>
      .ackEcn largestAck ackDelay firstAckRange ranges ect0 ect1 ce
  | .pathChallenge data => .pathChallenge (f data)
  | .pathResponse data => .pathResponse (f data)
  | .crypto offset data => .crypto offset (f data)
  | .newToken token => .newToken (f token)
  | .retireConnectionId seq => .retireConnectionId seq
  | .handshakeDone => .handshakeDone
  | .datagram data => .datagram (f data)
  | .datagramLen data => .datagramLen (f data)
  | .stream flags fin streamId offset data => .stream flags fin streamId offset (f data)

/-- What a decoder returns: the length of the frame, and the frame. -/
abbrev Decoded := Nat × RxFrame Slice

section Primitives

variable (payload : Bytes)

def byteAt (p : Nat) : Dec UInt8 :=
  match payload[p]? with
  | some b => .ok b
  | none => .error .outOfBounds

def check (len : Nat) : Dec Unit :=
  if payload.length < len then .error (.err .frameEncoding) else .ok ()

def readUvarintlen (p : Nat) : Dec Nat := do
  let b ← byteAt payload p
  .ok (getUvarintlen b)

/-- The integer at `p`, and the place behind it. -/
def readUvarint (p : Nat) : Dec (Nat × Nat) := do
  let n ← readUvarintlen payload p
  if payload.length < p + n then .error .outOfBounds else .ok (getUvarint (payload.drop p), p + n)

def readBytes (p n : Nat) : Dec (Slice × Nat) :=
  if payload.length < p + n then .error .outOfBounds else .ok (⟨p, n⟩, p + n)

/-- An integer in the first pass, where `len` counts one byte for each integer to come. -/
def skipUvarint (len p : Nat) : Dec (Nat × Nat) := do
  let n ← readUvarintlen payload p
  check payload (len + (n - 1))
  .ok (len + (n - 1), p + n)

/-- The length of data in the first pass: the new `len`, the length of the field, and its value. -/
def skipLength (len p : Nat) : Dec (Nat × Nat × Nat) := do
  let n ← readUvarintlen payload p
  check payload (len + (n - 1))
  let (vi, _) ← readUvarint payload p
  if payload.length - (len + (n - 1)) < vi then .error (.err .frameEncoding) else .ok (len + (n - 1) + vi, n, vi)

/-- An integer that is there under a condition. -/
def readIf (c : Bool) (p : Nat) : Dec (Nat × Nat) :=
  if c then readUvarint payload p else .ok (0, p)

/-- The same in the first pass, where `len` does not account for it yet. -/
def skipIf (c : Bool) (len p : Nat) : Dec (Nat × Nat) :=
  if c then do
    check payload (len + 1)
    skipUvarint payload (len + 1) p
  else .ok (len, p)

/-- The assertion that ends a decoder. -/
def atEnd (p len : Nat) (fr : RxFrame Slice) : Dec Decoded :=
  if p = len then .ok (len, fr) else .error .assertion

/-- A frame that is one integer. -/
def decodeOne (mk : Nat → RxFrame Slice) : Dec Decoded := do
  check payload 2
  let (len, _) ← skipUvarint payload 2 1
  let (a, p) ← readUvarint payload 1
  atEnd p len (mk a)

/-- A frame that is two integers. -/
def decodeTwo (mk : Nat → Nat → RxFrame Slice) : Dec Decoded := do
  check payload 3
  let (len, p) ← skipUvarint payload 3 1
  let (len, _) ← skipUvarint payload len p
  let (a, p) ← readUvarint payload 1
  let (b, p) ← readUvarint payload p
  atEnd p len (mk a b)

/-- A frame that is eight bytes of data. -/
def decodePathData (mk : Slice → RxFrame Slice) : Dec Decoded := do
  check payload 9
  let (data, p) ← readBytes payload 1 8
  atEnd p 9 (mk data)

end Primitives

section Decoders

variable (payload : Bytes)

/-- The zeros at the beginning. -/
def decodePaddingFrame : Dec Decoded :=
  if payload.length = 0 then .error .assertion
  else
    let len := 1 + ((payload.drop 1).takeWhile (· = 0)).length
    .ok (len, .padding len)

def decodeResetStreamFrame : Dec Decoded := do
  check payload 4
  let (len, p) ← skipUvarint payload 4 1
  let (len, p) ← skipUvarint payload len p
  let (len, _) ← skipUvarint payload len p
  let (streamId, p) ← readUvarint payload 1
  let (appErrorCode, p) ← readUvarint payload p
  let (finalSize, p) ← readUvarint payload p
  atEnd p len (.resetStream streamId appErrorCode finalSize)

/-- The Frame Type field in the first pass. The byte that is looked at without a check is accounted for
as the length of the reason. -/
def skipFrameType (isClose : Bool) (len p : Nat) : Dec (Nat × Nat) :=
  if isClose then skipUvarint payload (len + 1) p else .ok (len, p)

def decodeConnectionCloseFrame : Dec Decoded := do
  check payload 3
  let type ← byteAt payload 0
  let (len, p) ← skipUvarint payload 3 1
  let (len, p) ← skipFrameType payload (type = 0x1C) len p
  let (len, nreasonlen, reasonlen) ← skipLength payload len p
  let (errorCode, p) ← readUvarint payload 1
  let (frameType, p) ← readIf payload (type = 0x1C) p
  let reason : Slice := ⟨p + nreasonlen, reasonlen⟩
  atEnd (p + nreasonlen + reasonlen) len
    (if type = 0x1C then .connectionClose errorCode frameType reason else .connectionCloseApp errorCode reason)

def decodeMaxDataFrame : Dec Decoded :=
  decodeOne payload .maxData

def decodeMaxStreamDataFrame : Dec Decoded :=
  decodeTwo payload .maxStreamData

def decodeMaxStreamsFrame : Dec Decoded := do
  let type ← byteAt payload 0
  decodeOne payload (if type = 0x12 then .maxStreamsBidi else .maxStreamsUni)

def decodePingFrame : Dec Decoded :=
  if payload.length = 0 then .error .assertion else .ok (1, .ping)

def decodeDataBlockedFrame : Dec Decoded :=
  decodeOne payload .dataBlocked

def decodeStreamDataBlockedFrame : Dec Decoded :=
  decodeTwo payload .streamDataBlocked

def decodeStreamsBlockedFrame : Dec Decoded := do
  let type ← byteAt payload 0
  decodeOne payload (if type = 0x16 then .streamsBlockedBidi else .streamsBlockedUni)

def decodeNewConnectionIdFrame : Dec Decoded := do
  check payload 20
  let (len, p) ← skipUvarint payload 20 1
  let (len, p) ← skipUvarint payload len p
  let cil ← byteAt payload p
  let cil := cil.toNat
  if cil < 1 ∨ 20 < cil then .error (.err .frameEncoding)
  else do
    let len := len + cil
    check payload len
    let (seq, p) ← readUvarint payload 1
    let (retirePriorTo, p) ← readUvarint payload p
    let (cid, p) ← readBytes payload (p + 1) cil
    let (token, p) ← readBytes payload p 16
    atEnd p len (.newConnectionId seq retirePriorTo cid token)

def decodeStopSendingFrame : Dec Decoded :=
  decodeTwo payload .stopSending

/-- `k` integers in the first pass. -/
def skipUvarints : Nat → Nat → Nat → Dec (Nat × Nat)
  | 0, len, p => .ok (len, p)
  | k + 1, len, p => do
      let (len, p) ← skipUvarint payload len p
      skipUvarints k len p

/-- `k` ACK ranges. -/
def readRanges : Nat → Nat → Dec (List (Nat × Nat) × Nat)
  | 0, p => .ok ([], p)
  | k + 1, p => do
      let (gap, p) ← readUvarint payload p
      let (len, p) ← readUvarint payload p
      let (ranges, p) ← readRanges k p
      .ok ((gap, len) :: ranges, p)

/-- `k` ACK ranges that are not stored. -/
def passRanges : Nat → Nat → Dec Nat
  | 0, p => .ok p
  | k + 1, p => do
      let n ← readUvarintlen payload p
      let m ← readUvarintlen payload (p + n)
      passRanges k (p + n + m)

/-- The ECN counts in the first pass. -/
def skipEcnCounts (isEcn : Bool) (len p : Nat) : Dec (Nat × Nat) :=
  if isEcn then do
    check payload (len + 3)
    skipUvarints payload 3 (len + 3) p
  else .ok (len, p)

def decodeAckFrame : Dec Decoded := do
  check payload 5
  let type ← byteAt payload 0
  let (len, p) ← skipUvarint payload 5 1
  let (len, p) ← skipUvarint payload len p
  let nrangecnt ← readUvarintlen payload p
  let len := len + (nrangecnt - 1)
  check payload len
  let (rangecnt, p) ← readUvarint payload p
  if uint64Max / 2 < rangecnt ∨ payload.length - len < rangecnt * 2 then .error (.err .frameEncoding)
  else do
    let len := len + rangecnt * 2
    let (len, p) ← skipUvarint payload len p
    let (len, p) ← skipUvarints payload (2 * rangecnt) len p
    let (len, _) ← skipEcnCounts payload (type = 0x03) len p
    let (largestAck, p) ← readUvarint payload 1
    let (ackDelay, p) ← readUvarint payload p
    let (firstAckRange, p) ← readUvarint payload (p + nrangecnt)
    let (ranges, p) ← readRanges payload (min 32 rangecnt) p
    let p ← passRanges payload (rangecnt - min 32 rangecnt) p
    if type = 0x03 then do
      let (ect0, p) ← readUvarint payload p
      let (ect1, p) ← readUvarint payload p
      let (ce, p) ← readUvarint payload p
      atEnd p len (.ackEcn largestAck ackDelay firstAckRange ranges ect0 ect1 ce)
    else atEnd p len (.ack largestAck ackDelay firstAckRange ranges)

def decodePathChallengeFrame : Dec Decoded :=
  decodePathData payload .pathChallenge

def decodePathResponseFrame : Dec Decoded :=
  decodePathData payload .pathResponse

def decodeCryptoFrame : Dec Decoded := do
  check payload 3
  let (len, p) ← skipUvarint payload 3 1
  let (len, ndatalen, datalen) ← skipLength payload len p
  let (offset, p) ← readUvarint payload 1
  atEnd (p + ndatalen + datalen) len (.crypto offset ⟨p + ndatalen, datalen⟩)

def decodeNewTokenFrame : Dec Decoded := do
  check payload 2
  let (len, n, datalen) ← skipLength payload 2 1
  atEnd (1 + n + datalen) len (.newToken ⟨1 + n, datalen⟩)

def decodeRetireConnectionIdFrame : Dec Decoded :=
  decodeOne payload .retireConnectionId

def decodeHandshakeDoneFrame : Dec Decoded :=
  if payload.length = 0 then .error .assertion else .ok (1, .handshakeDone)

def decodeDatagramFrame : Dec Decoded := do
  let type ← byteAt payload 0
  if type = 0x30 then atEnd (1 + (payload.length - 1)) payload.length (.datagram ⟨1, payload.length - 1⟩)
  else do
    check payload 2
    let (len, n, datalen) ← skipLength payload 2 1
    atEnd (1 + n + datalen) len (.datagramLen ⟨1 + n, datalen⟩)

/-- The length of the data in the first pass; data without a length goes to the end of the payload. -/
def skipDatalen (hasLen : Bool) (len p : Nat) : Dec (Nat × Nat × Nat) :=
  if hasLen then do
    check payload (len + 1)
    skipLength payload (len + 1) p
  else .ok (payload.length, 0, 0)

def decodeStreamFrame : Dec Decoded := do
  check payload 2
  let type ← byteAt payload 0
  let (len, p) ← skipUvarint payload 2 1
  let (len, p) ← skipIf payload (type &&& 0x04 ≠ 0) len p
  let (len, ndatalen, datalen) ← skipDatalen payload (type &&& 0x02 ≠ 0) len p
  let (streamId, p) ← readUvarint payload 1
  let (offset, p) ← readIf payload (type &&& 0x04 ≠ 0) p
  let data : Slice := if type &&& 0x02 ≠ 0 then ⟨p + ndatalen, datalen⟩ else ⟨p, payload.length - p⟩
  atEnd (data.off + data.len) len (.stream (type &&& 0xF7) (type &&& 0x01 ≠ 0) streamId offset data)

/-- The decoder for the type of a frame. -/
def decodeFrameOf (type : UInt8) : Dec Decoded :=
  if type = 0x00 then decodePaddingFrame payload
  else if type = 0x04 then decodeResetStreamFrame payload
  else if type = 0x1C ∨ type = 0x1D then decodeConnectionCloseFrame payload
  else if type = 0x10 then decodeMaxDataFrame payload
  else if type = 0x11 then decodeMaxStreamDataFrame payload
  else if type = 0x12 ∨ type = 0x13 then decodeMaxStreamsFrame payload
  else if type = 0x01 then decodePingFrame payload
  else if type = 0x14 then decodeDataBlockedFrame payload
  else if type = 0x15 then decodeStreamDataBlockedFrame payload
  else if type = 0x16 ∨ type = 0x17 then decodeStreamsBlockedFrame payload
  else if type = 0x18 then decodeNewConnectionIdFrame payload
  else if type = 0x05 then decodeStopSendingFrame payload
  else if type = 0x02 ∨ type = 0x03 then decodeAckFrame payload
  else if type = 0x1A then decodePathChallengeFrame payload
  else if type = 0x1B then decodePathResponseFrame payload
  else if type = 0x06 then decodeCryptoFrame payload
  else if type = 0x07 then decodeNewTokenFrame payload
  else if type = 0x19 then decodeRetireConnectionIdFrame payload
  else if type = 0x1E then decodeHandshakeDoneFrame payload
  else if type = 0x30 ∨ type = 0x31 then decodeDatagramFrame payload
  else if type &&& 0xF8 = 0x08 then decodeStreamFrame payload
  else .error (.err .frameEncoding)

/-- `ngtcp2_frame_decoder_decode` -/
def decodeFrame : Dec Decoded :=
  if payload.length = 0 then .error (.err .frameEncoding)
  else do
    let type ← byteAt payload 0
    decodeFrameOf payload type

end Decoders

/-- The loop over the frames of a payload, which gives up after `fuel` frames. -/
def decodeFrames : Nat → Bytes → Option (Dec (List Decoded))
  | fuel, payload =>
      if payload = [] then some (.ok [])
      else
        match fuel with
        | 0 => none
        | fuel + 1 =>
            match decodeFrame payload with
            | .error e => some (.error e)
            | .ok (n, fr) => (decodeFrames fuel (payload.drop n)).map (Except.map ((n, fr) :: ·))

end Zngtcp2.Pkt
