import Mathlib.Order.Bounds.Defs
import Zngtcp2.Buf
import Zngtcp2.Pkt.Frame

namespace Zngtcp2.Pkt

/-- `ngtcp2_pkt_encode_stream_frame` into a buffer of `outlen` bytes: the flags that it leaves in the frame,
and what it writes. -/
def encodeStreamFrame (outlen : Nat) (fr : Stream) : Except Fault (Except Rv (UInt8 × Bytes)) :=
  let datalen := (fr.txbuf.getD fr.data).len
  let len := 1 + (if fr.offset.1 ≠ 0 then putUvarintlen fr.offset else 0) + putUvarintlen fr.streamId +
    putUvarintlen datalen + datalen.1
  if outlen < len then .ok (.error .nobuf)
  else if fr.txbuf.isNone ∧ ∃ v ∈ fr.data.vecs, v.length = 0 then .error .assertion
  else if (encodeStream fr).length ≠ len then .error .assertion
  else .ok (.ok (streamFlags fr, encodeStream fr))

/-- `ngtcp2_pkt_encode_crypto_frame` -/
def encodeCryptoFrame (outlen : Nat) (fr : Stream) : Except Fault (Except Rv Bytes) :=
  let len := 1 + putUvarintlen fr.offset + putUvarintlen fr.data.len + fr.data.len.1
  if outlen < len then .ok (.error .nobuf)
  else if (encodeCrypto fr).length ≠ len then .error .assertion
  else .ok (.ok (encodeCrypto fr))

/-- The length of a STREAM frame with that much data. -/
def streamFramelen (streamId offset datalen : Varint) : Nat :=
  1 + putUvarintlen streamId + (if offset.1 ≠ 0 then putUvarintlen offset else 0) + putUvarintlen datalen + datalen.1

def cryptoFramelen (offset datalen : Varint) : Nat :=
  1 + putUvarintlen offset + putUvarintlen datalen + datalen.1

theorem encodeStream_framelen (fr : Stream) :
    (encodeStream fr).length = streamFramelen fr.streamId fr.offset (fr.txbuf.getD fr.data).len :=
  encodeStream_length fr

theorem encodeCrypto_framelen (fr : Stream) : (encodeCrypto fr).length = cryptoFramelen fr.offset fr.data.len :=
  encodeCrypto_length fr

theorem encodeStreamFrame_eq (outlen : Nat) (fr : Stream) :
    encodeStreamFrame outlen fr =
      if outlen < streamFramelen fr.streamId fr.offset (fr.txbuf.getD fr.data).len then .ok (.error .nobuf)
      else if fr.txbuf.isNone ∧ ∃ v ∈ fr.data.vecs, v.length = 0 then .error .assertion
      else .ok (.ok (streamFlags fr, encodeStream fr)) := by
  have hlen := encodeStream_framelen fr
  have hcomm : 1 + (if fr.offset.1 ≠ 0 then putUvarintlen fr.offset else 0) + putUvarintlen fr.streamId +
      putUvarintlen (fr.txbuf.getD fr.data).len + (fr.txbuf.getD fr.data).len.1 =
        streamFramelen fr.streamId fr.offset (fr.txbuf.getD fr.data).len := by
    rw [streamFramelen]
    omega
  simp only [encodeStreamFrame, hcomm, hlen, ne_eq, not_true_eq_false, if_false]

theorem encodeCryptoFrame_eq (outlen : Nat) (fr : Stream) :
    encodeCryptoFrame outlen fr =
      if outlen < cryptoFramelen fr.offset fr.data.len then .ok (.error .nobuf)
      else .ok (.ok (encodeCrypto fr)) := by
  have hlen := encodeCrypto_framelen fr
  rw [cryptoFramelen] at hlen ⊢
  simp only [encodeCryptoFrame, hlen, ne_eq, not_true_eq_false, if_false]

/-- The amounts of data, up to `len`, with which something fits after their Length field is added. -/
def Fitting (framelen : Varint → Nat) (len left : Nat) : Set Nat :=
  { n | ∃ h : n < 2 ^ 62, n ≤ len ∧ framelen ⟨n, h⟩ ≤ left }

theorem lenMaxDatalen_lt (len left : Nat) : lenMaxDatalen len left < 2 ^ 62 := by
  rw [lenMaxDatalen]
  split_ifs <;> omega

theorem lenMaxDatalen_le (len left : Nat) : lenMaxDatalen len left ≤ len := by
  rw [lenMaxDatalen]
  split_ifs <;> omega

theorem le_lenMaxDatalen {len left : Nat} (datalen : Varint) (hlen : datalen.1 ≤ len)
    (h : putUvarintlen datalen + datalen.1 ≤ left) : datalen.1 ≤ lenMaxDatalen len left := by
  have hlt := datalen.2
  rw [putUvarintlen] at h
  rw [lenMaxDatalen]
  split_ifs at h ⊢ <;> omega

theorem lenMaxDatalen_isGreatest {n len left : Nat} {framelen : Varint → Nat}
    (hframe : ∀ datalen, framelen datalen = n + putUvarintlen datalen + datalen.1) (hleft : n < left) :
    IsGreatest (Fitting framelen len left) (lenMaxDatalen len (left - n)) := by
  constructor
  · refine ⟨lenMaxDatalen_lt _ _, lenMaxDatalen_le _ _, ?_⟩
    have hfit := lenMaxDatalen_spec (show 0 < left - n by omega) ⟨_, lenMaxDatalen_lt len (left - n)⟩ (Nat.le_refl _)
    rw [hframe]
    omega
  · rintro k ⟨hk, hlen, hfit⟩
    rw [hframe] at hfit
    exact le_lenMaxDatalen ⟨k, hk⟩ hlen (by omega)

/-- What `ngtcp2_pkt_stream_max_datalen` promises: there is no room for the empty frame, or the result is the
largest amount of data that fits. A frame with that much data is written, unless it has an empty vector. -/
structure StreamMax (streamId offset : Varint) (len left : Nat) : Prop where
  none_iff : streamMaxDatalen streamId offset len left = none ↔
    left < streamFramelen streamId offset ⟨0, Nat.two_pow_pos 62⟩
  greatest : ∀ m, streamMaxDatalen streamId offset len left = some m →
    IsGreatest (Fitting (streamFramelen streamId offset) len left) m
  fits : ∀ fr : Stream, fr.streamId = streamId → fr.offset = offset →
    streamMaxDatalen streamId offset len left = some (fr.txbuf.getD fr.data).bytes.length →
    encodeStreamFrame left fr ≠ .ok (.error .nobuf)
  written : ∀ fr : Stream, fr.streamId = streamId → fr.offset = offset →
    streamMaxDatalen streamId offset len left = some (fr.txbuf.getD fr.data).bytes.length →
    (fr.txbuf = none → ∀ v ∈ fr.data.vecs, v ≠ []) →
    encodeStreamFrame left fr = .ok (.ok (streamFlags fr, encodeStream fr))

/-- `ngtcp2_pkt_crypto_max_datalen` has no room where a frame with a single byte does not fit. -/
structure CryptoMax (offset : Varint) (len left : Nat) : Prop where
  none_iff : cryptoMaxDatalen offset len left = none ↔ ∀ n : Varint, 0 < n.1 → left < cryptoFramelen offset n
  greatest : ∀ m, cryptoMaxDatalen offset len left = some m →
    IsGreatest (Fitting (cryptoFramelen offset) len left) m
  written : ∀ fr : Stream, fr.offset = offset → cryptoMaxDatalen offset len left = some fr.data.bytes.length →
    encodeCryptoFrame left fr = .ok (.ok (encodeCrypto fr))

theorem putUvarintlen_zero : putUvarintlen ⟨0, Nat.two_pow_pos 62⟩ = 1 := by
  decide

theorem streamMaxDatalen_greatest {streamId offset : Varint} {len left m : Nat}
    (h : streamMaxDatalen streamId offset len left = some m) :
    IsGreatest (Fitting (streamFramelen streamId offset) len left) m := by
  simp only [streamMaxDatalen] at h
  by_cases hn : left ≤ 1 + putUvarintlen streamId + if offset.1 ≠ 0 then putUvarintlen offset else 0
  · rw [if_pos hn] at h
    cases h
  · rw [if_neg hn, Option.some.injEq] at h
    rw [← h]
    exact lenMaxDatalen_isGreatest (fun _ => rfl) (by omega)

theorem cryptoMaxDatalen_greatest {offset : Varint} {len left m : Nat} (h : cryptoMaxDatalen offset len left = some m) :
    IsGreatest (Fitting (cryptoFramelen offset) len left) m := by
  simp only [cryptoMaxDatalen] at h
  by_cases hn : left ≤ 1 + putUvarintlen offset + 1
  · rw [if_pos hn] at h
    cases h
  · rw [if_neg hn, Option.some.injEq] at h
    rw [← h]
    exact lenMaxDatalen_isGreatest (fun _ => rfl) (by omega)

theorem streamFramelen_le {fr : Stream} {len left : Nat}
    (h : streamMaxDatalen fr.streamId fr.offset len left = some (fr.txbuf.getD fr.data).bytes.length) :
    streamFramelen fr.streamId fr.offset (fr.txbuf.getD fr.data).len ≤ left := by
  obtain ⟨_, -, hfit⟩ := (streamMaxDatalen_greatest h).1
  exact hfit

theorem cryptoFramelen_le {fr : Stream} {len left : Nat}
    (h : cryptoMaxDatalen fr.offset len left = some fr.data.bytes.length) :
    cryptoFramelen fr.offset fr.data.len ≤ left := by
  obtain ⟨_, -, hfit⟩ := (cryptoMaxDatalen_greatest h).1
  exact hfit

theorem streamMax (streamId offset : Varint) (len left : Nat) : StreamMax streamId offset len left := by
  refine ⟨?_, fun m => streamMaxDatalen_greatest, ?_, ?_⟩
  · rw [streamFramelen, putUvarintlen_zero]
    simp only [streamMaxDatalen, ite_eq_left_iff, reduceCtorEq, imp_false, not_not]
    omega
  · rintro fr rfl rfl h
    rw [encodeStreamFrame_eq, if_neg (Nat.not_lt.mpr (streamFramelen_le h))]
    split
    · exact fun hc => by cases hc
    · exact fun hc => by cases hc
  · rintro fr rfl rfl h hvecs
    rw [encodeStreamFrame_eq, if_neg (Nat.not_lt.mpr (streamFramelen_le h)), if_neg]
    rintro ⟨htx, v, hv, hlen⟩
    exact hvecs (Option.isNone_iff_eq_none.mp htx) v hv (List.length_eq_zero_iff.mp hlen)

theorem cryptoMax (offset : Varint) (len left : Nat) : CryptoMax offset len left := by
  refine ⟨?_, fun m => cryptoMaxDatalen_greatest, ?_⟩
  · simp only [cryptoMaxDatalen, ite_eq_left_iff, reduceCtorEq, imp_false, not_not]
    constructor
    · intro hn n hpos
      have hlen := putUvarintlen_pos n
      rw [cryptoFramelen]
      omega
    · intro h
      have hone := h ⟨1, by decide⟩ (by decide)
      rw [cryptoFramelen, show putUvarintlen ⟨1, by decide⟩ = 1 by decide] at hone
      simp only at hone
      omega
  · rintro fr rfl h
    rw [encodeCryptoFrame_eq, if_neg (Nat.not_lt.mpr (cryptoFramelen_le h))]

/-- Both functions find the largest amount of data that fits, at every width of the Length field. -/
theorem maxDatalen_optimal (streamId offset : Varint) (len left : Nat) :
    StreamMax streamId offset len left ∧ CryptoMax offset len left :=
  ⟨streamMax streamId offset len left, cryptoMax offset len left⟩

/-- One more byte of room need not allow one more byte of data. -/
example : streamMaxDatalen ⟨4, by decide⟩ ⟨0, by decide⟩ 100 66 = some 63 ∧
    streamMaxDatalen ⟨4, by decide⟩ ⟨0, by decide⟩ 100 67 = some 63 ∧
    streamMaxDatalen ⟨4, by decide⟩ ⟨0, by decide⟩ 100 68 = some 64 := by
  decide

end Zngtcp2.Pkt
