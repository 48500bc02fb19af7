import Zngtcp2.Pkt.Conv
import Zngtcp2.Pkt.DecodeBounds

namespace Zngtcp2.Pkt

/-- The length that `ngtcp2_pkt_encode_frame` computes before it writes. -/
def Frame.encodeLen : Frame → Nat
  | .stream fr =>
      let data := fr.txbuf.getD fr.data
      1 + (if fr.offset.1 ≠ 0 then putUvarintlen fr.offset else 0) + putUvarintlen fr.streamId + putUvarintlen data.len +
        (data.vecs.map List.length).sum
  | .ack fr =>
      1 + putUvarintlen fr.largestAck + putUvarintlen fr.ackDelay + putUvarintlen ⟨fr.ranges.length, fr.ranges_lt⟩ +
        putUvarintlen fr.firstAckRange + (fr.ranges.map fun r => putUvarintlen r.1 + putUvarintlen r.2).sum +
        match fr.ecn with
        | some ecn => putUvarintlen ecn.ect0 + putUvarintlen ecn.ect1 + putUvarintlen ecn.ce
        | none => 0
  | .padding len => len
  | .resetStream streamId appErrorCode finalSize =>
      1 + putUvarintlen streamId + putUvarintlen appErrorCode + putUvarintlen finalSize
  | .connectionClose errorCode frameType reason =>
      1 + putUvarintlen errorCode + putUvarintlen frameType + putUvarintlen reason.len + reason.len.1
  | .connectionCloseApp errorCode reason => 1 + putUvarintlen errorCode + putUvarintlen reason.len + reason.len.1
  | .maxData n => 1 + putUvarintlen n
  | .maxStreamData streamId n => 1 + putUvarintlen streamId + putUvarintlen n
  | .maxStreamsBidi maxStreams => 1 + putUvarintlen maxStreams
  | .maxStreamsUni maxStreams => 1 + putUvarintlen maxStreams
  | .ping => 1
  | .dataBlocked offset => 1 + putUvarintlen offset
  | .streamDataBlocked streamId offset => 1 + putUvarintlen streamId + putUvarintlen offset
  | .streamsBlockedBidi maxStreams => 1 + putUvarintlen maxStreams
  | .streamsBlockedUni maxStreams => 1 + putUvarintlen maxStreams
  | .newConnectionId seq retirePriorTo cid _ => 1 + putUvarintlen seq + putUvarintlen retirePriorTo + 1 + cid.length + 16
  | .stopSending streamId appErrorCode => 1 + putUvarintlen streamId + putUvarintlen appErrorCode
  | .pathChallenge _ => 1 + 8
  | .pathResponse _ => 1 + 8
  | .crypto fr => 1 + putUvarintlen fr.offset + putUvarintlen fr.data.len + (fr.data.vecs.map List.length).sum
  | .newToken token _ => 1 + putUvarintlen token.len + token.len.1
  | .retireConnectionId seq => 1 + putUvarintlen seq
  | .handshakeDone => 1
  | .datagram fr => 1 + (fr.data.vecs.map List.length).sum
  | .datagramLen fr => 1 + putUvarintlen fr.data.len + (fr.data.vecs.map List.length).sum

/-- The writer of a STREAM frame asserts that none of its vectors is empty. -/
def Frame.vecsNonempty : Frame → Bool
  | .stream fr => fr.txbuf.isSome ∨ ∀ v ∈ fr.data.vecs, v ≠ []
  | _ => true

/-- `ngtcp2_pkt_encode_frame`, into a buffer of `outlen` bytes. -/
def pktEncodeFrame (outlen : Nat) (fr : Frame) : Dec Bytes :=
  if outlen < fr.encodeLen then .error (.err .nobuf)
  else if fr.vecsNonempty = false ∨ (encodeFrame fr).length ≠ fr.encodeLen then .error .assertion
  else .ok (encodeFrame fr)

/-- The frame as its receiver sees it. -/
def Frame.rx : Frame → RxFrame Bytes
  | .stream fr => .stream (streamFlags fr) fr.fin fr.streamId.1 fr.offset.1 (fr.txbuf.getD fr.data).bytes
  | .ack fr =>
      let ranges := fr.ranges.map fun r => (r.1.1, r.2.1)
      match fr.ecn with
      | some ecn => .ackEcn fr.largestAck.1 fr.ackDelay.1 fr.firstAckRange.1 ranges ecn.ect0.1 ecn.ect1.1 ecn.ce.1
      | none => .ack fr.largestAck.1 fr.ackDelay.1 fr.firstAckRange.1 ranges
  | .padding len => .padding len
  | .resetStream streamId appErrorCode finalSize => .resetStream streamId.1 appErrorCode.1 finalSize.1
  | .connectionClose errorCode frameType reason => .connectionClose errorCode.1 frameType.1 reason.bytes
  | .connectionCloseApp errorCode reason => .connectionCloseApp errorCode.1 reason.bytes
  | .maxData n => .maxData n.1
  | .maxStreamData streamId n => .maxStreamData streamId.1 n.1
  | .maxStreamsBidi maxStreams => .maxStreamsBidi maxStreams.1
  | .maxStreamsUni maxStreams => .maxStreamsUni maxStreams.1
  | .ping => .ping
  | .dataBlocked offset => .dataBlocked offset.1
  | .streamDataBlocked streamId offset => .streamDataBlocked streamId.1 offset.1
  | .streamsBlockedBidi maxStreams => .streamsBlockedBidi maxStreams.1
  | .streamsBlockedUni maxStreams => .streamsBlockedUni maxStreams.1
  | .newConnectionId seq retirePriorTo cid token => .newConnectionId seq.1 retirePriorTo.1 cid token.toList
  | .stopSending streamId appErrorCode => .stopSending streamId.1 appErrorCode.1
  | .pathChallenge data => .pathChallenge data.toList
  | .pathResponse data => .pathResponse data.toList
  | .crypto fr => .crypto fr.offset.1 fr.data.bytes
  | .newToken token _ => .newToken token.bytes
  | .retireConnectionId seq => .retireConnectionId seq.1
  | .handshakeDone => .handshakeDone
  | .datagram fr => .datagram fr.data.bytes
  | .datagramLen fr => .datagramLen fr.data.bytes

/-- The frames that can be told from what follows them, within the limits of their receiver. -/
def Frame.Supported : Frame → Prop
  | .padding len => 1 ≤ len
  | .ack fr => fr.ranges.length ≤ 32
  | .newConnectionId _ _ cid _ => 1 ≤ cid.length ∧ cid.length ≤ 20
  | .datagram _ => False
  | _ => True

theorem encodeRanges_length (ranges : List (Varint × Varint)) :
    ((ranges.map fun r => putUvarint r.1 ++ putUvarint r.2).flatten).length =
      (ranges.map fun r => putUvarintlen r.1 + putUvarintlen r.2).sum := by
  induction ranges with
  | nil => rfl
  | cons r rs ih =>
      rw [List.map_cons, List.flatten_cons, List.length_append, ih, List.map_cons, List.sum_cons, List.length_append,
        putUvarint_length, putUvarint_length]

/-- The computed length is what is written. -/
theorem encodeFrame_length (fr : Frame) : (encodeFrame fr).length = fr.encodeLen := by
  cases fr with
  | stream fr =>
      rw [encodeFrame, encodeStream_length, Frame.encodeLen, Payload.bytes, List.length_flatten]
      omega
  | ack fr =>
      simp only [encodeFrame, encodeAck, Frame.encodeLen, List.length_cons, List.length_append, putUvarint_length,
        encodeRanges_length]
      cases fr.ecn with
      | none =>
          simp only [List.length_nil]
          omega
      | some ecn =>
          simp only [List.length_append, putUvarint_length]
          omega
  | crypto fr =>
      rw [encodeFrame, encodeCrypto_length, Frame.encodeLen, Payload.bytes, List.length_flatten]
  | datagram fr =>
      rw [encodeFrame, Frame.encodeLen, List.length_cons, Payload.bytes, List.length_flatten]
      omega
  | datagramLen fr =>
      rw [encodeFrame, Frame.encodeLen, List.length_cons, List.length_append, putUvarint_length, Payload.bytes,
        List.length_flatten]
      omega
  | padding len => exact List.length_replicate
  | _ =>
      simp [encodeFrame, Frame.encodeLen, Payload.len]
      try omega

theorem pktEncodeFrame_ok {outlen : Nat} {fr : Frame} {bytes : Bytes} (h : pktEncodeFrame outlen fr = .ok bytes) :
    bytes = encodeFrame fr ∧ bytes.length = fr.encodeLen ∧ bytes.length ≤ outlen := by
  rw [pktEncodeFrame] at h
  split at h
  · cases h
  rename_i hout
  split at h
  · cases h
  cases h
  have hlen := encodeFrame_length fr
  exact ⟨rfl, hlen, by omega⟩

section Positions

variable {payload rest : Bytes} {p : Nat} {n : Varint}

/-- The integer at a place. -/
structure UvarintAt (payload : Bytes) (p : Nat) (n : Varint) (rest : Bytes) : Prop where
  len : uvarintlenAt payload p = putUvarintlen n
  value : getUvarint (payload.drop p) = n.1
  next : payload.drop (p + putUvarintlen n) = rest
  length : payload.length = p + putUvarintlen n + rest.length

theorem uvarintAt (h : payload.drop p = putUvarint n ++ rest) : UvarintAt payload p n rest := by
  have hpos := putUvarintlen_pos n
  have hlength := congrArg List.length h
  rw [List.length_drop, List.length_append, putUvarint_length] at hlength
  refine ⟨?_, ?_, ?_, by omega⟩
  · have hhead : payload.getD p 0 = (payload.drop p).getD 0 0 := by
      simp [List.getD_eq_getElem?_getD]
    rw [uvarintlenAt, hhead, h, getUvarintlen_putUvarint]
  · rw [h, getUvarint_putUvarint]
  · rw [← List.drop_drop, h, List.drop_left']
    exact putUvarint_length n

theorem ok_bind {α β : Type} (a : α) (f : α → Dec β) : (Except.ok a >>= f) = f a :=
  rfl

theorem check_at {len : Nat} (h : len ≤ payload.length) : check payload len = .ok () := by
  rw [check, if_neg (by omega)]

theorem readUvarint_at (h : payload.drop p = putUvarint n ++ rest) :
    readUvarint payload p = .ok (n.1, p + putUvarintlen n) := by
  obtain ⟨hlen, hvalue, _, hlength⟩ := uvarintAt h
  rw [readUvarint_eq (by omega), hlen, hvalue]

theorem skipUvarint_at (h : payload.drop p = putUvarint n ++ rest) {len : Nat} (r : Nat) (hlen : len = p + (r + 1))
    (hr : r ≤ rest.length) : skipUvarint payload len p = .ok (p + putUvarintlen n + r, p + putUvarintlen n) := by
  obtain ⟨hn, _, _, hlength⟩ := uvarintAt h
  have hpos := putUvarintlen_pos n
  have hsum : len + (putUvarintlen n - 1) = p + putUvarintlen n + r := by omega
  rw [skipUvarint, readUvarintlen_eq (by omega), hn, ok_bind, hsum, check_at (by omega), ok_bind]

theorem skipLength_at (h : payload.drop p = putUvarint n ++ rest) {len : Nat} (hlen : len = p + 1)
    (hr : n.1 ≤ rest.length) :
    skipLength payload len p = .ok (p + putUvarintlen n + n.1, putUvarintlen n, n.1) := by
  obtain ⟨hn, _, _, hlength⟩ := uvarintAt h
  have hpos := putUvarintlen_pos n
  have hsum : len + (putUvarintlen n - 1) = p + putUvarintlen n := by omega
  rw [skipLength, readUvarintlen_eq (by omega), hn, ok_bind, hsum, check_at (by omega), ok_bind, readUvarint_at h, ok_bind]
  simp only
  rw [if_neg (by omega)]

theorem atEnd_at {len : Nat} {fr : RxFrame Slice} (h : p = len) : atEnd p len fr = .ok (len, fr) := by
  rw [atEnd, if_pos h]

theorem slice_at {data : Bytes} (h : payload.drop p = data ++ rest) : Slice.bytes payload ⟨p, data.length⟩ = data := by
  rw [Slice.bytes, h, List.take_left]

theorem readBytes_at {data : Bytes} (h : payload.drop p = data ++ rest) (hne : data ≠ []) :
    readBytes payload p data.length = .ok (⟨p, data.length⟩, p + data.length) ∧
      payload.drop (p + data.length) = rest ∧ payload.length = p + data.length + rest.length := by
  have hlength := congrArg List.length h
  rw [List.length_drop, List.length_append] at hlength
  have hpos := List.length_pos_iff.mpr hne
  refine ⟨?_, ?_, by omega⟩
  · rw [readBytes, if_neg (by omega)]
  · rw [← List.drop_drop, h, List.drop_left]

end Positions

section RoundTrip

variable {payload rest : Bytes} {a b c : Varint}

theorem decodeOne_at {mk : Nat → RxFrame Slice} (h : payload.drop 1 = putUvarint a ++ rest) :
    decodeOne payload mk = .ok (1 + putUvarintlen a, mk a.1) := by
  have hlen := (uvarintAt h).length
  have hpos := putUvarintlen_pos a
  rw [decodeOne, check_at (by omega), ok_bind, skipUvarint_at h 0 rfl (Nat.zero_le _), ok_bind]
  simp only
  rw [readUvarint_at h, ok_bind]
  exact atEnd_at rfl

theorem decodeTwo_at {mk : Nat → Nat → RxFrame Slice} (h : payload.drop 1 = putUvarint a ++ (putUvarint b ++ rest)) :
    decodeTwo payload mk = .ok (1 + putUvarintlen a + putUvarintlen b, mk a.1 b.1) := by
  have hb := (uvarintAt h).next
  have hlen := (uvarintAt h).length
  have hpos := putUvarintlen_pos a
  have hpos' := putUvarintlen_pos b
  rw [List.length_append, putUvarint_length] at hlen
  rw [decodeTwo, check_at (by omega), ok_bind,
    skipUvarint_at h 1 rfl (by rw [List.length_append, putUvarint_length]; omega), ok_bind]
  simp only
  rw [skipUvarint_at hb 0 rfl (Nat.zero_le _), ok_bind]
  simp only
  rw [readUvarint_at h, ok_bind]
  simp only
  rw [readUvarint_at hb, ok_bind]
  exact atEnd_at rfl

theorem decodeResetStreamFrame_at (h : payload.drop 1 = putUvarint a ++ (putUvarint b ++ (putUvarint c ++ rest))) :
    decodeResetStreamFrame payload =
      .ok (1 + putUvarintlen a + putUvarintlen b + putUvarintlen c, .resetStream a.1 b.1 c.1) := by
  have hb := (uvarintAt h).next
  have hc := (uvarintAt hb).next
  have hlen := (uvarintAt h).length
  have hpos := putUvarintlen_pos a
  have hpos' := putUvarintlen_pos b
  have hpos'' := putUvarintlen_pos c
  simp only [List.length_append, putUvarint_length] at hlen
  rw [decodeResetStreamFrame, check_at (by omega), ok_bind,
    skipUvarint_at h 2 rfl (by simp only [List.length_append, putUvarint_length]; omega), ok_bind]
  simp only
  rw [skipUvarint_at hb 1 rfl (by simp only [List.length_append, putUvarint_length]; omega), ok_bind]
  simp only
  rw [skipUvarint_at hc 0 rfl (Nat.zero_le _), ok_bind]
  simp only
  rw [readUvarint_at h, ok_bind]
  simp only
  rw [readUvarint_at hb, ok_bind]
  simp only
  rw [readUvarint_at hc, ok_bind]
  exact atEnd_at rfl

theorem decodeLength_at {mk : Slice → RxFrame Slice} {data : Bytes} (hdata : data.length = a.1)
    (h : payload.drop 1 = putUvarint a ++ (data ++ rest)) :
    (do
      check payload 2
      let (len, n, datalen) ← skipLength payload 2 1
      atEnd (1 + n + datalen) len (mk ⟨1 + n, datalen⟩)) =
      .ok (1 + putUvarintlen a + a.1, mk ⟨1 + putUvarintlen a, a.1⟩) := by
  have hlen := (uvarintAt h).length
  have hpos := putUvarintlen_pos a
  rw [check_at (by omega), ok_bind, skipLength_at h rfl (by rw [List.length_append]; omega), ok_bind]
  exact atEnd_at rfl

theorem decodeCryptoFrame_at {data : Bytes} (hdata : data.length = b.1)
    (h : payload.drop 1 = putUvarint a ++ (putUvarint b ++ (data ++ rest))) :
    decodeCryptoFrame payload =
      .ok (1 + putUvarintlen a + putUvarintlen b + b.1, .crypto a.1 ⟨1 + putUvarintlen a + putUvarintlen b, b.1⟩) := by
  have hb := (uvarintAt h).next
  have hlen := (uvarintAt h).length
  have hpos := putUvarintlen_pos a
  have hpos' := putUvarintlen_pos b
  simp only [List.length_append, putUvarint_length] at hlen
  rw [decodeCryptoFrame, check_at (by omega), ok_bind,
    skipUvarint_at h 1 rfl (by simp only [List.length_append, putUvarint_length]; omega), ok_bind]
  simp only
  rw [skipLength_at hb rfl (by rw [List.length_append]; omega), ok_bind]
  simp only
  rw [readUvarint_at h, ok_bind]
  exact atEnd_at rfl

theorem decodeConnectionCloseFrame_at {reason : Bytes} (hreason : reason.length = c.1) (htype : payload.getD 0 0 = 0x1C)
    (h : payload.drop 1 = putUvarint a ++ (putUvarint b ++ (putUvarint c ++ (reason ++ rest)))) :
    decodeConnectionCloseFrame payload =
      .ok (1 + putUvarintlen a + putUvarintlen b + putUvarintlen c + c.1,
        .connectionClose a.1 b.1 ⟨1 + putUvarintlen a + putUvarintlen b + putUvarintlen c, c.1⟩) := by
  have hb := (uvarintAt h).next
  have hc := (uvarintAt hb).next
  have hlen := (uvarintAt h).length
  have hpos := putUvarintlen_pos a
  have hpos' := putUvarintlen_pos b
  have hpos'' := putUvarintlen_pos c
  simp only [List.length_append, putUvarint_length] at hlen
  rw [decodeConnectionCloseFrame, check_at (by omega), ok_bind, byteAt_eq (by omega), htype, ok_bind,
    skipUvarint_at h 1 rfl (by simp only [List.length_append, putUvarint_length]; omega), ok_bind]
  simp only [decide_true, if_true]
  rw [skipFrameType, if_pos rfl, skipUvarint_at hb 1 rfl (by simp only [List.length_append, putUvarint_length]; omega), ok_bind]
  simp only
  rw [skipLength_at hc rfl (by rw [List.length_append]; omega), ok_bind]
  simp only
  rw [readUvarint_at h, ok_bind]
  simp only
  rw [readIf, if_pos rfl, readUvarint_at hb, ok_bind]
  exact atEnd_at rfl

theorem decodeConnectionCloseAppFrame_at {reason : Bytes} (hreason : reason.length = b.1) (htype : payload.getD 0 0 = 0x1D)
    (h : payload.drop 1 = putUvarint a ++ (putUvarint b ++ (reason ++ rest))) :
    decodeConnectionCloseFrame payload =
      .ok (1 + putUvarintlen a + putUvarintlen b + b.1,
        .connectionCloseApp a.1 ⟨1 + putUvarintlen a + putUvarintlen b, b.1⟩) := by
  have hb := (uvarintAt h).next
  have hlen := (uvarintAt h).length
  have hpos := putUvarintlen_pos a
  have hpos' := putUvarintlen_pos b
  simp only [List.length_append, putUvarint_length] at hlen
  rw [decodeConnectionCloseFrame, check_at (by omega), ok_bind, byteAt_eq (by omega), htype, ok_bind,
    skipUvarint_at h 1 rfl (by simp only [List.length_append, putUvarint_length]; omega), ok_bind]
  have hclose : ((0x1D : UInt8) = 0x1C) = False := by decide
  simp only [hclose, decide_false, if_false]
  rw [skipFrameType, if_neg (by decide), ok_bind]
  simp only
  rw [skipLength_at hb rfl (by rw [List.length_append]; omega), ok_bind]
  simp only
  rw [readUvarint_at h, ok_bind]
  simp only
  rw [readIf, if_neg (by decide), ok_bind]
  exact atEnd_at rfl

theorem decodePathData_at {mk : Slice → RxFrame Slice} {data : Bytes} (hdata : data.length = 8)
    (h : payload.drop 1 = data ++ rest) : decodePathData payload mk = .ok (9, mk ⟨1, 8⟩) := by
  obtain ⟨hread, _, hlen⟩ := readBytes_at h (by rintro rfl; cases hdata)
  rw [hdata] at hread hlen
  rw [decodePathData, check_at (by omega), ok_bind, hread, ok_bind]
  exact atEnd_at rfl

theorem decodeNewConnectionIdFrame_at {cid token : Bytes} (hcid : 1 ≤ cid.length ∧ cid.length ≤ 20) (htoken : token.length = 16)
    (h : payload.drop 1 = putUvarint a ++ (putUvarint b ++ (UInt8.ofNat cid.length :: (cid ++ (token ++ rest))))) :
    decodeNewConnectionIdFrame payload =
      .ok (1 + putUvarintlen a + putUvarintlen b + 1 + cid.length + 16,
        .newConnectionId a.1 b.1 ⟨1 + putUvarintlen a + putUvarintlen b + 1, cid.length⟩
          ⟨1 + putUvarintlen a + putUvarintlen b + 1 + cid.length, token.length⟩) := by
  have hb := (uvarintAt h).next
  have hc := (uvarintAt hb).next
  have hlen := (uvarintAt h).length
  have hpos := putUvarintlen_pos a
  have hpos' := putUvarintlen_pos b
  simp only [List.length_append, List.length_cons, putUvarint_length] at hlen
  have hcil : payload.getD (1 + putUvarintlen a + putUvarintlen b) 0 = UInt8.ofNat cid.length := by
    have hhead : payload.getD (1 + putUvarintlen a + putUvarintlen b) 0 =
        (payload.drop (1 + putUvarintlen a + putUvarintlen b)).getD 0 0 := by
      simp [List.getD_eq_getElem?_getD]
    rw [hhead, hc]
    rfl
  have hcil' : (UInt8.ofNat cid.length).toNat = cid.length := by
    rw [UInt8.toNat_ofNat']
    omega
  have hd : payload.drop (1 + putUvarintlen a + putUvarintlen b + 1) = cid ++ (token ++ rest) := by
    rw [← List.drop_drop, hc]
    rfl
  obtain ⟨hreadCid, htok, _⟩ := readBytes_at hd (List.length_pos_iff.mp hcid.1)
  obtain ⟨hreadToken, _, _⟩ := readBytes_at htok (by rintro rfl; cases htoken)
  rw [htoken] at hreadToken
  rw [decodeNewConnectionIdFrame, check_at (by omega), ok_bind,
    skipUvarint_at h 18 rfl (by simp only [List.length_append, List.length_cons, putUvarint_length]; omega), ok_bind]
  simp only
  rw [skipUvarint_at hb 17 rfl (by simp only [List.length_append, List.length_cons]; omega), ok_bind]
  simp only
  rw [byteAt_eq (by omega), hcil, ok_bind]
  rw [hcil', if_neg (by omega), check_at (by omega), ok_bind, readUvarint_at h, ok_bind]
  simp only
  rw [readUvarint_at hb, ok_bind]
  simp only
  rw [hreadCid, ok_bind]
  simp only
  rw [hreadToken, ok_bind, htoken]
  refine (atEnd_at ?_).trans ?_
  · simp only
    omega
  · refine congrArg Except.ok (Prod.ext ?_ rfl)
    simp only
    omega

theorem decodePaddingFrame_at {len : Nat} (hlen : 1 ≤ len) (hrest : rest.head? ≠ some 0) :
    decodePaddingFrame (List.replicate len 0 ++ rest) = .ok (len, .padding len) := by
  obtain ⟨k, rfl⟩ : ∃ k, len = k + 1 := ⟨len - 1, by omega⟩
  have htake : ∀ k : Nat, ((List.replicate k (0 : UInt8) ++ rest).takeWhile (· = 0)).length = k := by
    intro k
    induction k with
    | zero =>
        cases rest with
        | nil => rfl
        | cons x xs =>
            have hx : x ≠ 0 := fun hx => hrest (by rw [hx]; rfl)
            simp [hx]
    | succ k ih => simpa [List.replicate_succ] using ih
  rw [decodePaddingFrame, if_neg (by simp), List.replicate_succ, List.cons_append, List.drop_one, List.tail_cons]
  simp only
  rw [htake, Nat.add_comm]

/-- The flags of a STREAM frame, as its receiver takes them from the type. -/
theorem streamType_flags (fr : Stream) :
    (streamFlags fr ||| 0x08) &&& 0xF7 = streamFlags fr ∧ ((streamFlags fr ||| 0x08) &&& 0x02 ≠ 0) ∧
      ((streamFlags fr ||| 0x08) &&& 0x04 ≠ 0 ↔ fr.offset.1 ≠ 0) ∧ ((streamFlags fr ||| 0x08) &&& 0x01 ≠ 0 ↔ fr.fin = true) ∧
      (streamFlags fr ||| 0x08) &&& 0xF8 = 0x08 := by
  rw [streamFlags]
  cases fr.fin <;> by_cases hoff : fr.offset.1 = 0 <;> simp [hoff] <;> decide

theorem decodeStreamFrame_at {fr : Stream} (htype : payload.getD 0 0 = streamFlags fr ||| 0x08)
    (h : payload.drop 1 = putUvarint fr.streamId ++ ((if fr.offset.1 ≠ 0 then putUvarint fr.offset else []) ++
      (putUvarint (fr.txbuf.getD fr.data).len ++ ((fr.txbuf.getD fr.data).bytes ++ rest)))) :
    ∃ p, payload.drop p = (fr.txbuf.getD fr.data).bytes ++ rest ∧
      decodeStreamFrame payload = .ok ((encodeStream fr).length,
        .stream (streamFlags fr) fr.fin fr.streamId.1 fr.offset.1 ⟨p, (fr.txbuf.getD fr.data).bytes.length⟩) := by
  obtain ⟨hflags, hlenbit, hoffbit, hfinbit, _⟩ := streamType_flags fr
  rw [encodeStream_length]
  generalize fr.txbuf.getD fr.data = data at h ⊢
  have hlen := (uvarintAt h).length
  have hnext := (uvarintAt h).next
  have hpos := putUvarintlen_pos fr.streamId
  have hpos' := putUvarintlen_pos data.len
  have hdata : data.bytes.length = data.len.1 := rfl
  simp only [List.length_append, putUvarint_length] at hlen
  have hfin : decide ((streamFlags fr ||| 0x08) &&& 0x01 ≠ 0) = fr.fin := by
    rw [Bool.eq_iff_iff, decide_eq_true_iff]
    exact hfinbit
  rw [decodeStreamFrame, check_at (by omega), ok_bind, byteAt_eq (by omega), htype, ok_bind,
    skipUvarint_at h 0 rfl (Nat.zero_le _), ok_bind]
  simp only [hflags, hfin, decide_eq_true hlenbit, if_pos hlenbit]
  by_cases hoff : fr.offset.1 ≠ 0
  · have hpos'' := putUvarintlen_pos fr.offset
    simp only [if_pos hoff] at hnext hlen ⊢
    have hlast := (uvarintAt hnext).next
    rw [putUvarint_length] at hlen
    simp only [decide_eq_true (hoffbit.mpr hoff)]
    rw [skipIf, if_pos rfl, check_at (by omega), ok_bind, skipUvarint_at hnext 0 rfl (Nat.zero_le _), ok_bind]
    simp only
    rw [skipDatalen, if_pos rfl, check_at (by omega), ok_bind,
      skipLength_at hlast rfl (by rw [List.length_append]; omega), ok_bind]
    simp only
    rw [readUvarint_at h, ok_bind]
    simp only
    rw [readIf, if_pos rfl, readUvarint_at hnext, ok_bind]
    exact ⟨_, (uvarintAt hlast).next, atEnd_at rfl⟩
  · simp only [if_neg hoff, List.nil_append] at hnext hlen ⊢
    simp only [decide_eq_false (mt hoffbit.mp hoff)]
    have hzero : fr.offset.1 = 0 := not_not.mp hoff
    rw [List.length_nil] at hlen
    rw [skipIf, if_neg (by decide), ok_bind]
    simp only
    rw [skipDatalen, if_pos rfl, check_at (by omega), ok_bind,
      skipLength_at hnext rfl (by rw [List.length_append]; omega), ok_bind]
    simp only
    rw [readUvarint_at h, ok_bind]
    simp only
    rw [readIf, if_neg (by decide), ok_bind, hzero]
    exact ⟨_, (uvarintAt hnext).next, atEnd_at rfl⟩

/-- The bytes of the additional ranges of an ACK frame. -/
def encodeRanges (ranges : List (Varint × Varint)) : Bytes :=
  (ranges.map fun r => putUvarint r.1 ++ putUvarint r.2).flatten

theorem encodeRanges_cons (r : Varint × Varint) (rs : List (Varint × Varint)) (rest : Bytes) :
    encodeRanges (r :: rs) ++ rest = putUvarint r.1 ++ (putUvarint r.2 ++ (encodeRanges rs ++ rest)) := by
  simp [encodeRanges, List.append_assoc]

theorem encodeRanges_cons_length (r : Varint × Varint) (rs : List (Varint × Varint)) :
    (encodeRanges (r :: rs)).length = putUvarintlen r.1 + putUvarintlen r.2 + (encodeRanges rs).length := by
  simp [encodeRanges, Nat.add_assoc]

theorem le_encodeRanges_length (ranges : List (Varint × Varint)) : 2 * ranges.length ≤ (encodeRanges ranges).length := by
  induction ranges with
  | nil => exact Nat.le_refl 0
  | cons r rs ih =>
      have hgap := putUvarintlen_pos r.1
      have hlen := putUvarintlen_pos r.2
      rw [encodeRanges_cons_length, List.length_cons]
      omega

theorem skipRanges_at {ranges : List (Varint × Varint)} {p len : Nat} (r : Nat)
    (h : payload.drop p = encodeRanges ranges ++ rest) (hlen : len = p + (r + 2 * ranges.length)) (hr : r ≤ rest.length) :
    skipUvarints payload (2 * ranges.length) len p =
      .ok (p + (encodeRanges ranges).length + r, p + (encodeRanges ranges).length) := by
  induction ranges generalizing p len with
  | nil =>
      rw [hlen]
      rfl
  | cons g gs ih =>
      rw [encodeRanges_cons] at h
      rw [List.length_cons] at hlen
      have hlen' := (uvarintAt h).next
      have hrest := (uvarintAt hlen').next
      have hge := le_encodeRanges_length gs
      have hpos := putUvarintlen_pos g.2
      rw [List.length_cons, show 2 * (gs.length + 1) = 2 * gs.length + 1 + 1 from rfl, skipUvarints,
        skipUvarint_at h (r + 2 * gs.length + 1) (by omega)
          (by simp only [List.length_append, putUvarint_length]; omega), ok_bind]
      simp only
      rw [skipUvarints, skipUvarint_at hlen' (r + 2 * gs.length) (by omega) (by rw [List.length_append]; omega), ok_bind]
      simp only
      rw [ih hrest rfl, encodeRanges_cons_length]
      simp only [Nat.add_assoc]

theorem readRanges_at {ranges : List (Varint × Varint)} {p : Nat} (h : payload.drop p = encodeRanges ranges ++ rest) :
    readRanges payload ranges.length p =
      .ok (ranges.map (fun r => (r.1.1, r.2.1)), p + (encodeRanges ranges).length) := by
  induction ranges generalizing p with
  | nil => rfl
  | cons g gs ih =>
      rw [encodeRanges_cons] at h
      have hlen := (uvarintAt h).next
      have hrest := (uvarintAt hlen).next
      rw [List.length_cons, readRanges, readUvarint_at h, ok_bind]
      simp only
      rw [readUvarint_at hlen, ok_bind]
      simp only
      rw [ih hrest, ok_bind, encodeRanges_cons_length]
      simp only [List.map_cons, Nat.add_assoc]

def encodeEcn : Option AckEcn → Bytes
  | some ecn => putUvarint ecn.ect0 ++ (putUvarint ecn.ect1 ++ putUvarint ecn.ce)
  | none => []

theorem skipEcnCounts_at {ecn : Option AckEcn} {p len : Nat} (h : payload.drop p = encodeEcn ecn ++ rest)
    (hp : p ≤ payload.length) (hlen : len = p) :
    skipEcnCounts payload ecn.isSome len p = .ok (p + (encodeEcn ecn).length, p + (encodeEcn ecn).length) := by
  rw [skipEcnCounts]
  cases ecn with
  | none =>
      rw [hlen]
      rfl
  | some ecn =>
      rw [encodeEcn, List.append_assoc, List.append_assoc] at h
      have hect1 := (uvarintAt h).next
      have hce := (uvarintAt hect1).next
      have hlength := (uvarintAt h).length
      have hpos := putUvarintlen_pos ecn.ect0
      have hpos' := putUvarintlen_pos ecn.ect1
      have hpos'' := putUvarintlen_pos ecn.ce
      simp only [List.length_append, putUvarint_length] at hlength
      rw [if_pos Option.isSome_some, check_at (by omega), ok_bind, skipUvarints,
        skipUvarint_at h 2 (by omega) (by simp only [List.length_append, putUvarint_length]; omega), ok_bind]
      simp only
      rw [skipUvarints, skipUvarint_at hect1 1 rfl (by simp only [List.length_append, putUvarint_length]; omega), ok_bind]
      simp only
      rw [skipUvarints, skipUvarint_at hce 0 rfl (Nat.zero_le _), ok_bind, encodeEcn]
      simp only [skipUvarints, List.length_append, putUvarint_length, Nat.add_zero, Nat.add_assoc]

theorem decodeAckFrame_at {fr : Ack} (hcnt : fr.ranges.length ≤ 32)
    (htype : payload.getD 0 0 = if fr.ecn.isSome then 0x03 else 0x02)
    (h : payload.drop 1 = putUvarint fr.largestAck ++ (putUvarint fr.ackDelay ++
      (putUvarint ⟨fr.ranges.length, fr.ranges_lt⟩ ++ (putUvarint fr.firstAckRange ++
        (encodeRanges fr.ranges ++ (encodeEcn fr.ecn ++ rest)))))) :
    ∃ d : RxFrame Slice, decodeAckFrame payload = .ok ((encodeAck fr).length, d) ∧
      d.map (Slice.bytes payload) = (Frame.ack fr).rx := by
  have hdelay := (uvarintAt h).next
  have hcount := (uvarintAt hdelay).next
  have hfirst := (uvarintAt hcount).next
  have hranges := (uvarintAt hfirst).next
  have hlength := (uvarintAt h).length
  have hge := le_encodeRanges_length fr.ranges
  have hpos₁ := putUvarintlen_pos fr.largestAck
  have hpos₂ := putUvarintlen_pos fr.ackDelay
  have hpos₃ := putUvarintlen_pos ⟨fr.ranges.length, fr.ranges_lt⟩
  have hpos₄ := putUvarintlen_pos fr.firstAckRange
  have hecn : payload.drop (1 + putUvarintlen fr.largestAck + putUvarintlen fr.ackDelay +
      putUvarintlen ⟨fr.ranges.length, fr.ranges_lt⟩ + putUvarintlen fr.firstAckRange + (encodeRanges fr.ranges).length) =
      encodeEcn fr.ecn ++ rest := by
    rw [← List.drop_drop, hranges, List.drop_left]
  have hisEcn : ((if fr.ecn.isSome = true then 0x03 else 0x02 : UInt8) = 0x03) = (fr.ecn.isSome = true) := by
    cases fr.ecn.isSome <;> decide
  have hmax : ¬(uint64Max / 2 < fr.ranges.length) := by
    simp only [uint64Max]
    omega
  have hencode : (encodeAck fr).length = 1 + putUvarintlen fr.largestAck + putUvarintlen fr.ackDelay +
      putUvarintlen ⟨fr.ranges.length, fr.ranges_lt⟩ + putUvarintlen fr.firstAckRange + (encodeRanges fr.ranges).length +
      (encodeEcn fr.ecn).length := by
    rw [encodeAck, encodeRanges]
    cases fr.ecn with
    | none =>
        simp only [encodeEcn, List.length_cons, List.length_append, putUvarint_length, List.length_nil]
        omega
    | some ecn =>
        simp only [encodeEcn, List.length_cons, List.length_append, putUvarint_length]
        omega
  rw [hencode]
  simp only [List.length_append, putUvarint_length] at hlength
  rw [decodeAckFrame, check_at (by omega), ok_bind, byteAt_eq (by omega), htype, ok_bind,
    skipUvarint_at h 3 rfl (by simp only [List.length_append, putUvarint_length]; omega), ok_bind]
  simp only [hisEcn, Bool.decide_eq_true]
  rw [skipUvarint_at hdelay 2 rfl (by simp only [List.length_append, putUvarint_length]; omega), ok_bind]
  simp only
  rw [readUvarintlen_eq (by omega), (uvarintAt hcount).len, ok_bind, check_at (by omega), ok_bind, readUvarint_at hcount, ok_bind]
  simp only
  rw [if_neg (by rw [not_or]; exact ⟨hmax, by omega⟩),
    skipUvarint_at hfirst (2 * fr.ranges.length) (by omega) (by rw [List.length_append]; omega), ok_bind]
  simp only
  rw [skipRanges_at 0 hranges (by omega) (Nat.zero_le _), ok_bind]
  simp only [Nat.add_zero]
  rw [skipEcnCounts_at hecn (by omega) rfl, ok_bind]
  simp only
  rw [readUvarint_at h, ok_bind]
  simp only
  rw [readUvarint_at hdelay, ok_bind]
  simp only
  rw [readUvarint_at hfirst, ok_bind]
  simp only
  rw [Nat.min_eq_right hcnt, Nat.sub_self, readRanges_at hranges, ok_bind]
  simp only [passRanges, ok_bind]
  cases hcase : fr.ecn with
  | none =>
      rw [if_neg (by decide), Frame.rx, hcase]
      refine ⟨_, atEnd_at rfl, rfl⟩
  | some ecn =>
      rw [hcase, encodeEcn, List.append_assoc, List.append_assoc] at hecn
      have hect1 := (uvarintAt hecn).next
      have hce := (uvarintAt hect1).next
      rw [if_pos Option.isSome_some, Frame.rx, hcase, readUvarint_at hecn, ok_bind]
      simp only
      rw [readUvarint_at hect1, ok_bind]
      simp only
      rw [readUvarint_at hce, ok_bind]
      refine ⟨_, atEnd_at ?_, rfl⟩
      simp only [encodeEcn, List.length_append, putUvarint_length, Nat.add_assoc]

end RoundTrip

/-- The receiver decodes the frame as it was sent, whatever follows it. -/
def Decodes (fr : Frame) (rest : Bytes) : Prop :=
  ∃ d, decodeFrame (encodeFrame fr ++ rest) = .ok (fr.encodeLen, d) ∧
    d.map (Slice.bytes (encodeFrame fr ++ rest)) = fr.rx

section Frames

variable {rest : Bytes}

theorem Decodes.of {fr : Frame} {t : UInt8} {d : RxFrame Slice} (hhead : (encodeFrame fr ++ rest).head? = some t)
    (hd : decodeFrameOf (encodeFrame fr ++ rest) t = .ok (fr.encodeLen, d))
    (hrx : d.map (Slice.bytes (encodeFrame fr ++ rest)) = fr.rx) : Decodes fr rest := by
  refine ⟨d, ?_, hrx⟩
  obtain ⟨bs, hbs⟩ := List.head?_eq_some_iff.mp hhead
  rw [← hd, hbs]
  rfl

theorem connectionClose_decodes (a b : Varint) (reason : Payload) : Decodes (.connectionClose a b reason) rest := by
  have h : (encodeFrame (.connectionClose a b reason) ++ rest).drop 1 =
      putUvarint a ++ (putUvarint b ++ (putUvarint reason.len ++ (reason.bytes ++ rest))) := by
    simp [encodeFrame]
  have hslice := slice_at (uvarintAt (uvarintAt (uvarintAt h).next).next).next
  exact .of rfl (decodeConnectionCloseFrame_at rfl rfl h) (congrArg (RxFrame.connectionClose a.1 b.1) hslice)

theorem connectionCloseApp_decodes (a : Varint) (reason : Payload) : Decodes (.connectionCloseApp a reason) rest := by
  have h : (encodeFrame (.connectionCloseApp a reason) ++ rest).drop 1 =
      putUvarint a ++ (putUvarint reason.len ++ (reason.bytes ++ rest)) := by
    simp [encodeFrame]
  have hslice := slice_at (uvarintAt (uvarintAt h).next).next
  exact .of rfl (decodeConnectionCloseAppFrame_at rfl rfl h) (congrArg (RxFrame.connectionCloseApp a.1) hslice)

theorem newConnectionId_decodes (a b : Varint) {cid : Bytes} (token : Vector UInt8 16)
    (hcid : 1 ≤ cid.length ∧ cid.length ≤ 20) : Decodes (.newConnectionId a b cid token) rest := by
  have h : (encodeFrame (.newConnectionId a b cid token) ++ rest).drop 1 =
      putUvarint a ++ (putUvarint b ++ (UInt8.ofNat cid.length :: (cid ++ (token.toList ++ rest)))) := by
    simp [encodeFrame]
  have hcid' : (encodeFrame (.newConnectionId a b cid token) ++ rest).drop
      (1 + putUvarintlen a + putUvarintlen b + 1) = cid ++ (token.toList ++ rest) := by
    rw [← List.drop_drop, (uvarintAt (uvarintAt h).next).next]
    rfl
  have htoken : (encodeFrame (.newConnectionId a b cid token) ++ rest).drop
      (1 + putUvarintlen a + putUvarintlen b + 1 + cid.length) = token.toList ++ rest := by
    rw [← List.drop_drop, hcid', List.drop_left]
  exact .of rfl (decodeNewConnectionIdFrame_at hcid token.length_toList h)
    (congr (congrArg (RxFrame.newConnectionId a.1 b.1) (slice_at hcid')) (slice_at htoken))

theorem crypto_decodes (fr : Stream) : Decodes (.crypto fr) rest := by
  have h : (encodeFrame (.crypto fr) ++ rest).drop 1 =
      putUvarint fr.offset ++ (putUvarint fr.data.len ++ (fr.data.bytes ++ rest)) := by
    simp [encodeFrame, encodeCrypto]
  have hlen : (Frame.crypto fr).encodeLen =
      1 + putUvarintlen fr.offset + putUvarintlen fr.data.len + fr.data.len.1 := by
    rw [← encodeFrame_length, encodeFrame, encodeCrypto_length]
    rfl
  have hslice := slice_at (uvarintAt (uvarintAt h).next).next
  have hd := decodeCryptoFrame_at rfl h
  rw [← hlen] at hd
  exact .of rfl hd (congrArg (RxFrame.crypto fr.offset.1) hslice)

theorem newToken_decodes {token : Payload} (hne : token.bytes ≠ []) : Decodes (.newToken token hne) rest := by
  have h : (encodeFrame (.newToken token hne) ++ rest).drop 1 = putUvarint token.len ++ (token.bytes ++ rest) := by
    simp [encodeFrame]
  exact .of rfl (decodeLength_at rfl h) (congrArg RxFrame.newToken (slice_at (uvarintAt h).next))

theorem datagramLen_decodes (fr : Datagram) : Decodes (.datagramLen fr) rest := by
  have h : (encodeFrame (.datagramLen fr) ++ rest).drop 1 = putUvarint fr.data.len ++ (fr.data.bytes ++ rest) := by
    simp [encodeFrame]
  have hlen : (Frame.datagramLen fr).encodeLen = 1 + putUvarintlen fr.data.len + fr.data.len.1 := by
    rw [← encodeFrame_length, encodeFrame, List.length_cons, List.length_append, putUvarint_length]
    simp only [Payload.len]
    omega
  have hd := @decodeLength_at _ _ _ RxFrame.datagramLen _ rfl h
  rw [← hlen] at hd
  exact .of rfl hd (congrArg RxFrame.datagramLen (slice_at (uvarintAt h).next))

theorem pathChallenge_decodes (data : Vector UInt8 8) : Decodes (.pathChallenge data) rest := by
  have h : (encodeFrame (.pathChallenge data) ++ rest).drop 1 = data.toList ++ rest := by simp [encodeFrame]
  have hslice := slice_at h
  rw [data.length_toList] at hslice
  exact .of rfl (decodePathData_at data.length_toList h) (congrArg RxFrame.pathChallenge hslice)

theorem pathResponse_decodes (data : Vector UInt8 8) : Decodes (.pathResponse data) rest := by
  have h : (encodeFrame (.pathResponse data) ++ rest).drop 1 = data.toList ++ rest := by simp [encodeFrame]
  have hslice := slice_at h
  rw [data.length_toList] at hslice
  exact .of rfl (decodePathData_at data.length_toList h) (congrArg RxFrame.pathResponse hslice)

theorem padding_decodes {len : Nat} (hlen : 1 ≤ len) (hrest : rest.head? ≠ some 0) : Decodes (.padding len) rest := by
  obtain ⟨k, rfl⟩ : ∃ k, len = k + 1 := ⟨len - 1, (Nat.sub_add_cancel hlen).symm⟩
  exact .of rfl (decodePaddingFrame_at hlen hrest) rfl

theorem ack_decodes {fr : Ack} (hcnt : fr.ranges.length ≤ 32) : Decodes (.ack fr) rest := by
  have h : (encodeFrame (.ack fr) ++ rest).drop 1 = putUvarint fr.largestAck ++ (putUvarint fr.ackDelay ++
      (putUvarint ⟨fr.ranges.length, fr.ranges_lt⟩ ++ (putUvarint fr.firstAckRange ++
        (encodeRanges fr.ranges ++ (encodeEcn fr.ecn ++ rest))))) := by
    rw [encodeFrame, encodeAck, encodeRanges]
    cases fr.ecn with
    | none => simp [encodeEcn]
    | some ecn => simp [encodeEcn]
  have hlen : (encodeAck fr).length = (Frame.ack fr).encodeLen := encodeFrame_length (.ack fr)
  have hhead : (encodeFrame (.ack fr) ++ rest).head? = some (if fr.ecn.isSome then 0x03 else 0x02) := rfl
  have htype : decodeFrameOf (encodeFrame (.ack fr) ++ rest) (if fr.ecn.isSome then 0x03 else 0x02) =
      decodeAckFrame (encodeFrame (.ack fr) ++ rest) := by
    split
    · rfl
    · rfl
  obtain ⟨d, hd, hrx⟩ := decodeAckFrame_at hcnt rfl h
  rw [hlen] at hd
  exact .of hhead (htype.trans hd) hrx

theorem stream_decodes (fr : Stream) : Decodes (.stream fr) rest := by
  have h : (encodeFrame (.stream fr) ++ rest).drop 1 = putUvarint fr.streamId ++
      ((if fr.offset.1 ≠ 0 then putUvarint fr.offset else []) ++
        (putUvarint (fr.txbuf.getD fr.data).len ++ ((fr.txbuf.getD fr.data).bytes ++ rest))) := by
    simp [encodeFrame, encodeStream, streamHd]
  have hlen : (encodeStream fr).length = (Frame.stream fr).encodeLen := encodeFrame_length (.stream fr)
  have hhead : (encodeFrame (.stream fr) ++ rest).head? = some (streamFlags fr ||| 0x08) := rfl
  have htype : decodeFrameOf (encodeFrame (.stream fr) ++ rest) (streamFlags fr ||| 0x08) =
      decodeStreamFrame (encodeFrame (.stream fr) ++ rest) := by
    rw [streamFlags]
    split
    · split <;> rfl
    · split <;> rfl
  obtain ⟨p, hp, hd⟩ := decodeStreamFrame_at rfl h
  rw [hlen] at hd
  exact .of hhead (htype.trans hd) (congrArg (RxFrame.stream _ _ _ _) (slice_at hp))

end Frames

theorem encodeFrame_decodes (fr : Frame) (hfr : fr.Supported) (rest : Bytes)
    (hrest : ∀ len, fr = .padding len → rest.head? ≠ some 0) : Decodes fr rest := by
  cases fr with
  | padding len => exact padding_decodes hfr (hrest len rfl)
  | resetStream a b c =>
      have h : (encodeFrame (.resetStream a b c) ++ rest).drop 1 =
          putUvarint a ++ (putUvarint b ++ (putUvarint c ++ rest)) := by
        simp [encodeFrame]
      exact .of rfl (decodeResetStreamFrame_at h) rfl
  | connectionClose a b reason => exact connectionClose_decodes a b reason
  | connectionCloseApp a reason => exact connectionCloseApp_decodes a reason
  | maxData a =>
      have h : (encodeFrame (.maxData a) ++ rest).drop 1 = putUvarint a ++ rest := by simp [encodeFrame]
      exact .of rfl (decodeOne_at h) rfl
  | maxStreamData a b =>
      have h : (encodeFrame (.maxStreamData a b) ++ rest).drop 1 = putUvarint a ++ (putUvarint b ++ rest) := by
        simp [encodeFrame]
      exact .of rfl (decodeTwo_at h) rfl
  | maxStreamsBidi a =>
      have h : (encodeFrame (.maxStreamsBidi a) ++ rest).drop 1 = putUvarint a ++ rest := by simp [encodeFrame]
      exact .of rfl (decodeOne_at h) rfl
  | maxStreamsUni a =>
      have h : (encodeFrame (.maxStreamsUni a) ++ rest).drop 1 = putUvarint a ++ rest := by simp [encodeFrame]
      exact .of rfl (decodeOne_at h) rfl
  | ping => exact .of rfl rfl rfl
  | dataBlocked a =>
      have h : (encodeFrame (.dataBlocked a) ++ rest).drop 1 = putUvarint a ++ rest := by simp [encodeFrame]
      exact .of rfl (decodeOne_at h) rfl
  | streamDataBlocked a b =>
      have h : (encodeFrame (.streamDataBlocked a b) ++ rest).drop 1 = putUvarint a ++ (putUvarint b ++ rest) := by
        simp [encodeFrame]
      exact .of rfl (decodeTwo_at h) rfl
  | streamsBlockedBidi a =>
      have h : (encodeFrame (.streamsBlockedBidi a) ++ rest).drop 1 = putUvarint a ++ rest := by simp [encodeFrame]
      exact .of rfl (decodeOne_at h) rfl
  | streamsBlockedUni a =>
      have h : (encodeFrame (.streamsBlockedUni a) ++ rest).drop 1 = putUvarint a ++ rest := by simp [encodeFrame]
      exact .of rfl (decodeOne_at h) rfl
  | newConnectionId a b cid token => exact newConnectionId_decodes a b token hfr
  | stopSending a b =>
      have h : (encodeFrame (.stopSending a b) ++ rest).drop 1 = putUvarint a ++ (putUvarint b ++ rest) := by
        simp [encodeFrame]
      exact .of rfl (decodeTwo_at h) rfl
  | pathChallenge data => exact pathChallenge_decodes data
  | pathResponse data => exact pathResponse_decodes data
  | crypto fr => exact crypto_decodes fr
  | newToken token hne => exact newToken_decodes hne
  | retireConnectionId a =>
      have h : (encodeFrame (.retireConnectionId a) ++ rest).drop 1 = putUvarint a ++ rest := by simp [encodeFrame]
      exact .of rfl (decodeOne_at h) rfl
  | handshakeDone => exact .of rfl rfl rfl
  | datagram fr => exact hfr.elim
  | datagramLen fr => exact datagramLen_decodes fr
  | ack fr => exact ack_decodes hfr
  | stream fr => exact stream_decodes fr

/-- The encoder writes as many bytes as it computed, fails if they do not fit, and what it writes is
decoded to the frame it was made from. -/
theorem pktEncodeFrame_roundTrip (fr : Frame) (hfr : fr.Supported) (outlen : Nat) :
    (outlen < fr.encodeLen → pktEncodeFrame outlen fr = .error (.err .nobuf)) ∧
      (fr.encodeLen ≤ outlen → fr.vecsNonempty = true → ∃ bytes, pktEncodeFrame outlen fr = .ok bytes) ∧
      ∀ bytes, pktEncodeFrame outlen fr = .ok bytes →
        bytes.length ≤ outlen ∧ bytes.length = fr.encodeLen ∧
          ∀ rest, (∀ len, fr = .padding len → rest.head? ≠ some 0) →
            ∃ d, decodeFrame (bytes ++ rest) = .ok (bytes.length, d) ∧ d.map (Slice.bytes (bytes ++ rest)) = fr.rx := by
  refine ⟨fun hout => ?_, fun hout hvecs => ?_, fun bytes h => ?_⟩
  · rw [pktEncodeFrame, if_pos hout]
  · refine ⟨encodeFrame fr, ?_⟩
    rw [pktEncodeFrame, if_neg (Nat.not_lt.mpr hout), if_neg]
    rw [hvecs, encodeFrame_length]
    simp
  · obtain ⟨rfl, hlen, hout⟩ := pktEncodeFrame_ok h
    refine ⟨hout, hlen, fun rest hrest => ?_⟩
    rw [hlen]
    exact encodeFrame_decodes fr hfr rest hrest

/-- An ACK_ECN frame with one additional range. -/
def ackFrame : Frame :=
  .ack ⟨⟨1000, by decide⟩, ⟨0, by decide⟩, ⟨3, by decide⟩, [(⟨0, by decide⟩, ⟨70, by decide⟩)], by decide,
    some ⟨⟨1, by decide⟩, ⟨0, by decide⟩, ⟨20000, by decide⟩⟩⟩

theorem pktEncodeFrame_roundTrip_ack :
    ackFrame.encodeLen = 15 ∧ ∃ bytes, pktEncodeFrame 20 ackFrame = .ok bytes ∧
      ∃ d, decodeFrame (bytes ++ [0x01]) = .ok (bytes.length, d) ∧ d.map (Slice.bytes (bytes ++ [0x01])) = ackFrame.rx := by
  obtain ⟨_, hok, hdec⟩ := pktEncodeFrame_roundTrip ackFrame (by decide : (1 : Nat) ≤ 32) 20
  obtain ⟨bytes, hbytes⟩ := hok (by decide) rfl
  obtain ⟨_, _, hrest⟩ := hdec bytes hbytes
  exact ⟨by decide, bytes, hbytes, hrest [0x01] (fun len h => (nomatch h))⟩

end Zngtcp2.Pkt
