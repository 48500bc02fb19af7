import Zngtcp2.Pkt.HdSafe
import Zngtcp2.Pkt.RoundTrip

namespace Zngtcp2.Pkt

/-- `ngtcp2_get_pkt_num` -/
def getPktNum (p : Bytes) (pktNumlen : Nat) : Nat :=
  getUintbe (p.take pktNumlen)

/-- The shortest long header: first byte, version, the two lengths, and one byte each of the Length field
and the packet number. -/
def minLongHeaderlen : Nat :=
  1 + 4 + 1 + 1 + 1 + 1

namespace TxHd

/-- The length that `ngtcp2_pkt_encode_hd_long` computes. -/
def longLen (h : TxHd) : Nat :=
  let len := minLongHeaderlen + h.hd.dcid.length + h.hd.scid.length - 2 + (TxPkt.pktLengthlen + h.hd.pktNumlen)
  if h.hd.type = .initial then len + (putUvarintlen h.tokenlen + h.hd.token.length) else len

/-- `ngtcp2_pkt_encode_hd_long` in a buffer of `outlen` bytes: the length, and what is written. -/
def pktEncodeHdLong (h : TxHd) (outlen : Nat) : Except Rv (Nat × Bytes) :=
  if outlen < h.longLen then .error .nobuf else .ok (h.longLen, h.encodeHdLong)

/-- `ngtcp2_pkt_encode_hd_short` -/
def pktEncodeHdShort (h : TxHd) (outlen : Nat) : Except Rv (Nat × Bytes) :=
  let len := 1 + h.hd.dcid.length + h.hd.pktNumlen
  if outlen < len then .error .nobuf else .ok (len, h.encodeHdShort)

/-- The encoder for the form of the header. -/
def pktEncodeHd (h : TxHd) (outlen : Nat) : Except Rv (Nat × Bytes) :=
  if h.hd.longForm then h.pktEncodeHdLong outlen else h.pktEncodeHdShort outlen

/-- The decoder for the form of the header. -/
def decodeHd (h : TxHd) (pkt : Bytes) : Option (Nat × PktHd) :=
  if h.hd.longForm then decodeHdLong pkt else decodeHdShort pkt h.hd.dcid.length

theorem longLen_eq (h : TxHd) : h.longLen = (h.longPrelude h.firstLong).length + 4 + h.hd.pktNumlen := by
  simp only [longLen, minLongHeaderlen, TxPkt.pktLengthlen, h.longPrelude_length]
  split <;> omega

/-- The encoders end where they have computed that they end. -/
theorem pktEncodeHdLong_length {h : TxHd} {outlen : Nat} {r : Nat × Bytes} (hr : h.pktEncodeHdLong outlen = .ok r) :
    r.2 = h.encodeHdLong ∧ r.1 = (h.longPrelude h.firstLong).length + 4 + h.hd.pktNumlen ∧ r.2.length = r.1 := by
  rw [pktEncodeHdLong] at hr
  split at hr
  · cases hr
  cases hr
  refine ⟨rfl, h.longLen_eq, ?_⟩
  rw [h.longLen_eq, encodeHdLong, pktNumField, List.length_append, List.length_append, putUvarint30_length,
    putUintbe_length]
  omega

theorem pktEncodeHdShort_length {h : TxHd} {outlen : Nat} {r : Nat × Bytes} (hr : h.pktEncodeHdShort outlen = .ok r) :
    r.2 = h.encodeHdShort ∧ r.1 = 1 + h.hd.dcid.length + h.hd.pktNumlen ∧ r.2.length = r.1 := by
  simp only [pktEncodeHdShort] at hr
  split at hr
  · cases hr
  cases hr
  refine ⟨rfl, rfl, ?_⟩
  rw [encodeHdShort, pktNumField, List.length_cons, List.length_append, putUintbe_length]
  omega

end TxHd

/-- The packet number behind a header, in the bytes that were written for it. -/
theorem getPktNum_pktNumField (h : TxHd) (rest : Bytes) :
    getPktNum (h.pktNumField ++ rest) h.hd.pktNumlen = h.hd.pktNum % 2 ^ (8 * h.hd.pktNumlen) := by
  have hlen : h.pktNumField.length = h.hd.pktNumlen := putUintbe_length _ _
  have htake : (h.pktNumField ++ rest).take h.hd.pktNumlen = h.pktNumField := List.take_left' hlen
  rw [getPktNum, htake, TxHd.pktNumField, getUintbe_putUintbe, Nat.pow_mul]

/-- A long header of a supported version has the version and the connection IDs that are found without
decoding it. -/
theorem readVersionCid_of_long {pkt : Bytes} {r : Nat × PktHd} (h : decodeHdLong pkt = some r)
    (hver : isSupportedVersion r.2.version = true) (shortDcidlen : Nat) :
    ∃ n v, readVersionCid pkt shortDcidlen = .ok (false, n, v) ∧ v.version = r.2.version ∧
      v.dcid.bytes pkt = r.2.dcid ∧ v.scid.bytes pkt = r.2.scid := by
  obtain ⟨type, dcil, scil, hd⟩ := decodeHdLong_iff.mp h
  have hmin := hd.min_le
  have hseven := minLongHdlen_ge type
  have hversion : r.2.version = getUintbe ((pkt.drop 1).take 4) := by rw [hd.hdEq]
  have hdcid : r.2.dcid = (pkt.drop 6).take dcil := by rw [hd.hdEq]
  have hscid : r.2.scid = (pkt.drop (7 + dcil)).take scil := by rw [hd.hdEq]
  have hform : pkt.getD 0 0 &&& 0x80 ≠ 0 := by simpa [isLongForm] using hd.form
  have hdle := hd.dcil_le
  have hsle := hd.scil_le
  rw [hversion] at hver
  refine ⟨7 + dcil + scil, ⟨r.2.version, ⟨6, dcil⟩, ⟨7 + dcil, scil⟩⟩, ?_, rfl, hdcid.symm, hscid.symm⟩
  rw [readVersionCid, if_neg (by omega), byteAt_eq (by omega)]
  simp only [bind, Except.bind]
  rw [if_pos hform, requireLen, if_neg (by omega), byteAt_eq (by omega)]
  simp only [hd.dcilEq]
  rw [requireLen, if_neg (by omega), byteAt_eq (by omega)]
  simp only [hd.scilEq]
  rw [requireLen, if_neg (by omega), readUint32be_eq (by omega)]
  simp only [hver]
  rw [if_neg (by omega), if_neg (by simp), ← hversion]
  simp

theorem readVersionCid_of_short {pkt : Bytes} {dcidlen : Nat} {r : Nat × PktHd} (h : decodeHdShort pkt dcidlen = some r)
    (hle : dcidlen ≤ 20) :
    ∃ n v, readVersionCid pkt dcidlen = .ok (false, n, v) ∧ v.version = r.2.version ∧
      v.dcid.bytes pkt = r.2.dcid ∧ v.scid.bytes pkt = r.2.scid := by
  rw [decodeHdShort] at h
  split at h
  · cases h
  rename_i hlen
  split at h
  · cases h
  rename_i hform
  cases h
  refine ⟨1 + dcidlen, { version := 0, dcid := ⟨1, dcidlen⟩ }, ?_, rfl, rfl, by simp [Slice.bytes]⟩
  rw [readVersionCid, if_neg (by omega), byteAt_eq (by omega)]
  simp only [bind, Except.bind]
  rw [if_neg (by simpa [isLongForm] using hform), if_neg (by omega), requireLen, if_neg (by omega)]

/-- What both decoders make of a header, whatever follows it: the fields that are on the wire are those
of the header. -/
structure HdDecodes (h : TxHd) (n : Nat) (pkt : Bytes) (hd : PktHd) : Prop where
  decoded : h.decodeHd pkt = some (n - h.hd.pktNumlen, hd)
  type : hd.type = h.hd.type
  dcid : hd.dcid = h.hd.dcid
  fixedBit : hd.fixedBitClear = h.hd.fixedBitClear
  pktNum : getPktNum (pkt.drop (n - h.hd.pktNumlen)) h.hd.pktNumlen = h.hd.pktNum % 2 ^ (8 * h.hd.pktNumlen)
  versionCid : ∃ len v, readVersionCid pkt h.hd.dcid.length = .ok (false, len, v) ∧ v.version = hd.version ∧
    v.dcid.bytes pkt = hd.dcid ∧ v.scid.bytes pkt = hd.scid

/-- The fields of a long header besides. -/
structure LongFields (hd hd' : PktHd) : Prop where
  version : hd'.version = hd.version
  scid : hd'.scid = hd.scid
  token : hd'.token = hd.token
  len : hd'.len = hd.len

/-- The header comes back with every field. -/
def RoundTrips (h : TxHd) : Prop :=
  ∀ outlen n out, h.pktEncodeHd outlen = .ok (n, out) → ∀ rest,
    ∃ hd, HdDecodes h n (out ++ rest) hd ∧ LongFields h.hd hd

theorem decodes_long {h : TxHd} (hlong : h.hd.longForm = true) (hver : isSupportedVersion h.hd.version = true)
    (htoken : h.hd.type ≠ .initial → h.hd.token = []) {outlen n : Nat} {out : Bytes}
    (hout : h.pktEncodeHdLong outlen = .ok (n, out)) (rest : Bytes) :
    ∃ hd, HdDecodes h n (out ++ rest) hd ∧ LongFields h.hd hd := by
  obtain ⟨hform, htype, hfixed, -⟩ := h.firstLong_spec hlong hver
  obtain ⟨hbytes, hn, -⟩ := TxHd.pktEncodeHdLong_length hout
  simp only at hbytes hn
  have happ : out ++ rest = h.longPrelude h.firstLong ++ (putUvarint30 h.hd.len ++ (h.pktNumField ++ rest)) := by
    rw [hbytes, TxHd.encodeHdLong, List.append_assoc, List.append_assoc]
  have hdec := @TxHd.decodeHdLong_encoded h h.firstLong (h.pktNumField ++ rest) h.hd.len hlong hver hform htype h.len_lt
  rw [← happ] at hdec
  have hend : n - h.hd.pktNumlen = (h.longPrelude h.firstLong).length + 4 := by omega
  have hdrop : (out ++ rest).drop (n - h.hd.pktNumlen) = h.pktNumField ++ rest := by
    have hlen : (putUvarint30 h.hd.len).length = 4 := putUvarint30_length _
    rw [hend, happ, ← List.drop_drop, List.drop_left, ← hlen, List.drop_left]
  let hd : PktHd := {
    longForm := true
    fixedBitClear := h.firstLong &&& 0x40 = 0
    type := h.hd.type
    version := h.hd.version
    dcid := h.hd.dcid
    scid := h.hd.scid
    token := if h.hd.type = .initial then h.hd.token else []
    len := h.hd.len }
  refine ⟨hd, ⟨?_, rfl, rfl, hfixed, ?_, ?_⟩, rfl, rfl, ?_, rfl⟩
  · rw [TxHd.decodeHd, if_pos hlong, hend]
    exact hdec
  · rw [hdrop]
    exact getPktNum_pktNumField h rest
  · exact readVersionCid_of_long hdec hver _
  · by_cases hi : h.hd.type = .initial
    · exact if_pos hi
    · rw [htoken hi]
      exact if_neg hi

theorem decodes_short {h : TxHd} (hshort : h.hd.longForm = false) {outlen n : Nat} {out : Bytes}
    (hout : h.pktEncodeHdShort outlen = .ok (n, out)) (rest : Bytes) :
    ∃ hd, HdDecodes h n (out ++ rest) hd ∧ hd.version = 0 ∧ hd.scid = [] ∧ hd.token = [] ∧ hd.len = 0 := by
  obtain ⟨hform, hfixed, -⟩ := h.firstShort_spec
  obtain ⟨hbytes, hn, -⟩ := TxHd.pktEncodeHdShort_length hout
  simp only at hbytes hn
  have happ : out ++ rest = h.firstShort :: (h.hd.dcid ++ (h.pktNumField ++ rest)) := by
    rw [hbytes, TxHd.encodeHdShort, List.cons_append, List.append_assoc]
  have hdec := @TxHd.decodeHdShort_encoded h h.firstShort (h.pktNumField ++ rest) hform
  rw [← happ] at hdec
  have hend : n - h.hd.pktNumlen = 1 + h.hd.dcid.length := by omega
  have hdrop : (out ++ rest).drop (n - h.hd.pktNumlen) = h.pktNumField ++ rest := by
    rw [hend, happ, Nat.add_comm, List.drop_succ_cons, List.drop_left]
  let hd : PktHd := { fixedBitClear := h.firstShort &&& 0x40 = 0, type := .oneRtt, dcid := h.hd.dcid }
  refine ⟨hd, ⟨?_, (h.type_short hshort).symm, rfl, hfixed, ?_, ?_⟩, rfl, rfl, rfl, rfl⟩
  · rw [TxHd.decodeHd, if_neg (by rw [hshort]; decide), hend]
    exact hdec
  · rw [hdrop]
    exact getPktNum_pktNumField h rest
  · exact readVersionCid_of_short hdec h.dcid_le

/-- What is encoded of a header of a supported version is decoded to the same header: a long header with
all of its fields, a short one with those that it has; its version reads as 0. -/
theorem encodeHd_decodeHd (h : TxHd) (hver : isSupportedVersion h.hd.version = true)
    (htoken : h.hd.type ≠ .initial → h.hd.token = []) (outlen n : Nat) (out : Bytes)
    (hout : h.pktEncodeHd outlen = .ok (n, out)) (rest : Bytes) :
    ∃ hd, HdDecodes h n (out ++ rest) hd ∧
      (h.hd.longForm = true → LongFields h.hd hd) ∧
      (h.hd.longForm = false → hd.version = 0 ∧ hd.scid = [] ∧ hd.token = [] ∧ hd.len = 0) := by
  rw [TxHd.pktEncodeHd] at hout
  cases hform : h.hd.longForm with
  | true =>
      rw [if_pos hform] at hout
      obtain ⟨hd, hdec, hfields⟩ := decodes_long hform hver htoken hout rest
      exact ⟨hd, hdec, fun _ => hfields, fun hc => absurd hc Bool.true_eq_false.mp⟩
  | false =>
      rw [if_neg (by rw [hform]; decide)] at hout
      obtain ⟨hd, hdec, hfields⟩ := decodes_short hform hout rest
      exact ⟨hd, hdec, fun hc => absurd hc Bool.false_eq_true.mp, fun _ => hfields⟩

/-- A header of a 1-RTT packet in a connection of QUIC version 1. -/
def oneRttHd : TxHd where
  hd := { type := .oneRtt, version := protoVerV1, dcid := [1, 2, 3, 4, 5, 6, 7, 8], pktNum := 700, pktNumlen := 2 }
  dcid_le := by decide
  scid_le := by decide
  version_lt := by decide
  token_lt := by decide
  len_lt := by decide
  numlen_pos := by decide
  numlen_le := by decide
  num_le := by decide
  type_long := by decide
  type_short := by decide
  keyPhase_short := by decide

/-- It has no version on the wire, and none after it is decoded. -/
theorem oneRttHd_loses_version :
    ¬ ∀ h : TxHd, isSupportedVersion h.hd.version = true → (h.hd.type ≠ .initial → h.hd.token = []) → RoundTrips h := by
  intro h
  obtain ⟨hd, hdec, hfields⟩ := h oneRttHd (by decide) (fun _ => rfl) 100 11 _ rfl []
  have hdecoded := hdec.decoded
  have hversion := hfields.version
  have hzero : (oneRttHd.decodeHd (oneRttHd.encodeHdShort ++ [])).map (fun r => r.2.version) = some 0 := by
    decide +kernel
  have hout : oneRttHd.decodeHd (oneRttHd.encodeHdShort ++ []) = some (11 - oneRttHd.hd.pktNumlen, hd) := hdecoded
  rw [hout, Option.map_some, Option.some.injEq] at hzero
  rw [hzero] at hversion
  exact absurd hversion (by decide)

/-- The header of an Initial packet of QUIC version 2, with a token. -/
def tokenHd : TxHd where
  hd := { longForm := true, type := .initial, version := protoVerV2, dcid := [1, 2, 3, 4, 5, 6, 7, 8], scid := [9],
          token := [7, 7, 7], len := 1180, pktNum := 2, pktNumlen := 1 }
  dcid_le := by decide
  scid_le := by decide
  version_lt := by decide
  token_lt := by decide
  len_lt := by decide
  numlen_pos := by decide
  numlen_le := by decide
  num_le := by decide
  type_long := by decide
  type_short := by decide
  keyPhase_short := by decide

theorem encodeHd_decodeHd_tokenHd :
    ∃ hd, HdDecodes tokenHd 25 (tokenHd.encodeHdLong ++ [0xFF]) hd ∧ LongFields tokenHd.hd hd := by
  obtain ⟨hd, hdec, hlong, -⟩ := encodeHd_decodeHd tokenHd (by decide) (fun hne => absurd rfl hne) 1200 25 _ rfl [0xFF]
  exact ⟨hd, hdec, hlong rfl⟩

end Zngtcp2.Pkt
