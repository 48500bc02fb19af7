import Zngtcp2.Pkt.Unprotect

namespace Zngtcp2.Pkt

/-- The encoder with its packet buffer, all of it in `out`; `last` bytes of it count as written. Only the
header and copies of the padding are there before the packet is protected. -/
structure PktEncoder extends TxPkt where
  out : Bytes
  last : Nat

/-- `bytes` over the memory at `off`. -/
def writeAt (out : Bytes) (off : Nat) (bytes : Bytes) : Bytes :=
  out.take off ++ bytes ++ out.drop (off + bytes.length)

/-- What `protect_pkt` is given. -/
structure Handed where
  plainv : List PlainV
  aad : Bytes
  pktNum : Nat
  sampleOffset : Nat

namespace PktEncoder

/-- `ngtcp2_ppe_encode_hd` on an encoder that `ngtcp2_ppe_init` has set up with the buffer `out` -/
def encodeHd (out : Bytes) (maxOverhead dgramOffset : Nat) (h : TxHd) : Except Rv PktEncoder :=
  match TxPkt.encodeHd out.length maxOverhead dgramOffset h with
  | .ok t => .ok { t with out := writeAt out 0 t.hdBytes, last := t.hdBytes.length }
  | .error rv => .error rv

/-- `ngtcp2_ppe_encode_frame` -/
def encodeFrame (e : PktEncoder) (fr : Frame) : Rv × PktEncoder :=
  ((e.ppe.encodeFrame fr).1, { e with ppe := (e.ppe.encodeFrame fr).2 })

/-- `ppe_sync_legacy_payload`: a payload that was written to the packet buffer behind the header. -/
def syncLegacyPayload (e : PktEncoder) : Rv × PktEncoder :=
  if e.ppe.payloadlen ≠ 0 ∨ e.last ≤ e.ppe.hdlen then (.ok, e)
  else
    let payload := (e.out.take e.last).drop e.ppe.hdlen
    if e.ppe.plainLeft < payload.length then (.nobuf, e)
    else
      (.ok, { e with
        ppe := { e.ppe with plain := e.ppe.plain ++ payload, payloadlen := payload.length }
        last := e.ppe.hdlen })

/-- The zeros behind what is in the packet so far, in the packet buffer. -/
def padOut (e : PktEncoder) (len : Nat) (t : TxPkt) : PktEncoder :=
  let pktlen := e.pktLen
  if len = 0 then { e with toTxPkt := t }
  else if len ≤ e.ppe.cap - pktlen then
    { t with out := writeAt e.out pktlen (List.replicate len 0), last := max e.last (pktlen + len) }
  else { e with toTxPkt := t }

/-- The kinds of padding: `ngtcp2_ppe_padding_size`, `ngtcp2_ppe_dgram_padding_size` and
`ngtcp2_ppe_dgram_padding`. -/
inductive Padding
  | size (n : Nat)
  | dgramSize (n : Nat)
  | dgram

def padTxPkt (t : TxPkt) : Padding → Except Fault (Nat × TxPkt)
  | .size n => t.paddingSize n
  | .dgramSize n => t.dgramPaddingSize n
  | .dgram => t.dgramPaddingSize 1200

/-- One of the padding functions, with the number of zeros that it adds. -/
def padding (e : PktEncoder) (p : Padding) : Except Fault (Nat × PktEncoder) :=
  match e.syncLegacyPayload with
  | (.ok, e) =>
      match padTxPkt e.toTxPkt p with
      | .ok (len, t) => .ok (len, e.padOut len t)
      | .error f => .error f
  | (_, e) => .ok (0, e)

/-- The Length field is overwritten in a long header. -/
def putLength (e : PktEncoder) : Bytes :=
  if e.lenOffset = 0 then e.out
  else writeAt e.out e.lenOffset (putUvarint30 ((e.ppe.payloadlen + e.pktNumlen + e.ppe.maxOverhead) % 2 ^ 16))

/-- `ngtcp2_ppe_final` up to the call of `protect_pkt`. -/
def final (e : PktEncoder) : Rv × Option Handed :=
  match e.syncLegacyPayload with
  | (.ok, e) =>
      match e.ppe.flushControl with
      | (.ok, ppe) => (.ok, some ⟨ppe.plainv, e.putLength.take e.ppe.hdlen, e.pktNum, e.pktNumOffset + 4⟩)
      | (rv, _) => (rv, none)
  | (rv, _) => (rv, none)

end PktEncoder

/-- The frame with its data in one place. -/
def Frame.contiguous : Frame → Frame
  | .datagramLen fr => .datagramLen { fr with data := fr.txbuf.getD fr.data }
  | fr => fr

/-- The header, then frames that were written, and others that did not fit. -/
inductive Assembled (maxOverhead : Nat) (h : TxHd) : PktEncoder → List Frame → Prop
  | start {out : Bytes} {dgramOffset : Nat} {e : PktEncoder}
      (he : PktEncoder.encodeHd out maxOverhead dgramOffset h = .ok e) : Assembled maxOverhead h e []
  | frame {e e' : PktEncoder} {frs : List Frame} {fr : Frame} (he : Assembled maxOverhead h e frs)
      (hfr : e.encodeFrame fr = (.ok, e')) : Assembled maxOverhead h e' (frs ++ [fr])
  | refused {e e' : PktEncoder} {frs : List Frame} {fr : Frame} (he : Assembled maxOverhead h e frs)
      (hfr : e.encodeFrame fr = (.nobuf, e')) : Assembled maxOverhead h e' frs

theorem writeAt_length {out bytes : Bytes} {off : Nat} (h : off + bytes.length ≤ out.length) :
    (writeAt out off bytes).length = out.length := by
  simp only [writeAt, List.length_append, List.length_take, List.length_drop]
  omega

/-- A write behind the first `n` bytes leaves them alone. -/
theorem writeAt_take {out bytes : Bytes} {off n : Nat} (hn : n ≤ off) (hoff : off ≤ out.length) :
    (writeAt out off bytes).take n = out.take n := by
  rw [writeAt, List.append_assoc, List.take_append_of_le_length (by rw [List.length_take]; omega), List.take_take,
    Nat.min_eq_left hn]

theorem writeAt_zero {out bytes : Bytes} : (writeAt out 0 bytes).take bytes.length = bytes := by
  rw [writeAt, List.take_zero, List.nil_append, List.take_left]

/-- A write within the first `n` bytes. -/
theorem writeAt_within {out bytes : Bytes} {off n : Nat} (hoff : off + bytes.length ≤ n) (hn : n ≤ out.length) :
    (writeAt out off bytes).take n =
      (out.take n).take off ++ (bytes ++ (out.take n).drop (off + bytes.length)) := by
  have hlen : (out.take off ++ bytes).length = off + bytes.length := by
    rw [List.length_append, List.length_take]
    omega
  rw [writeAt, List.take_append, hlen, List.take_of_length_le (by rw [hlen]; exact hoff), List.append_assoc,
    List.take_take, Nat.min_eq_left (by omega), List.drop_take]

/-- The contiguous frame is what the frame is on the wire. -/
theorem Frame.wire_contiguous (fr : Frame) : fr.wire = Pkt.encodeFrame fr.contiguous := by
  cases fr with
  | stream fr =>
      obtain ⟨fin, streamId, offset, data, _ | buf⟩ := fr
      · simp [Frame.wire, Frame.control, Frame.zeroCopy, Frame.contiguous, Pkt.encodeFrame]
      · simp [Frame.wire, Frame.control, Frame.zeroCopy, Frame.contiguous, Pkt.encodeFrame, encodeStream]
  | datagramLen fr =>
      obtain ⟨data, _ | buf⟩ := fr
      · simp [Frame.wire, Frame.control, Frame.zeroCopy, Frame.contiguous]
      · simp [Frame.wire, Frame.control, Frame.zeroCopy, Frame.contiguous, Pkt.encodeFrame, datagramHd]
  | _ => simp [Frame.wire, Frame.control, Frame.zeroCopy, Frame.contiguous]

/-- A frame that does not fit changes nothing. -/
theorem Ppe.encodeFrame_nobuf {ppe ppe' : Ppe} {fr : Frame} (h : ppe.encodeFrame fr = (.nobuf, ppe')) : ppe' = ppe := by
  have hadd : ∀ (p p' : Ppe) (v : PlainV), p.addPlainv v ≠ (.nobuf, p') := by
    intro p p' v hv
    rcases addPlainv_cases p v with ⟨heq, -⟩ | ⟨heq, -⟩ | ⟨heq, -⟩ <;> rw [heq] at hv <;> cases hv
  rw [encodeFrame_eq] at h
  split at h
  · cases h
    rfl
  split at h
  · rw [encodeRetained] at h
    split at h
    · cases h
      rfl
    split at h
    · cases h
      rfl
    split at h
    · cases h
      rfl
    simp only [flushControl] at h
    split at h
    · exact absurd h (hadd _ _ _)
    · rename_i hne
      split at h
      · cases h
      · exact absurd h (hadd _ _ _)
  · rw [encodeCopied] at h
    split at h
    · cases h
      rfl
    · cases h

theorem Ppe.encodeHd_fits {ppe ppe' : Ppe} {hdlen pktNumOffset : Nat}
    (h : ppe.encodeHd hdlen pktNumOffset = (.ok, ppe')) :
    hdlen + ppe.maxOverhead ≤ ppe.cap ∧ pktNumOffset + 4 + hpSamplelen ≤ ppe.cap := by
  rw [encodeHd] at h
  split at h
  · cases h
  split at h
  · cases h
  split at h
  · cases h
  · omega

/-- The room behind the header for the overhead of the AEAD, and for the sample that the header is
protected with. -/
theorem TxPkt.encodeHd_fits {cap maxOverhead dgramOffset : Nat} {h : TxHd} {t : TxPkt}
    (ht : TxPkt.encodeHd cap maxOverhead dgramOffset h = .ok t) :
    t.ppe.hdlen + maxOverhead ≤ cap ∧ t.pktNumOffset + 4 + Ppe.hpSamplelen ≤ cap ∧
      t.ppe = { cap := cap, maxOverhead := maxOverhead, hdlen := t.ppe.hdlen } := by
  simp only [TxPkt.encodeHd] at ht
  split at ht
  · rename_i ppe hppe
    obtain ⟨hle, hsample⟩ := Ppe.encodeHd_fits hppe
    obtain rfl := Ppe.encodeHd_ok hppe
    cases ht
    exact ⟨hle, hsample, rfl⟩
  · cases ht

namespace PktEncoder

/-- The state of the encoder between the header and the protection of the packet. -/
structure Ready (maxOverhead : Nat) (h : TxHd) (e : PktEncoder) (bytes : Bytes) : Prop where
  holds : e.Holds h bytes
  overhead : e.ppe.maxOverhead = maxOverhead
  inv : Ppe.Inv e.ppe
  room : e.ppe.hdlen + e.ppe.maxOverhead ≤ e.ppe.cap
  sample : e.pktNumOffset + 4 + Ppe.hpSamplelen ≤ e.ppe.cap
  hdlen_gt : e.pktNumOffset < e.ppe.hdlen
  out_length : e.out.length = e.ppe.cap
  header : e.out.take e.ppe.hdlen = e.hdBytes
  synced : e.ppe.payloadlen = 0 → e.last ≤ e.ppe.hdlen

/-- The payload is what is in the table and behind it, and the packet fits its buffer. -/
structure Consistent (e : PktEncoder) : Prop where
  payloadlen : e.ppe.payloadlen =
    ((e.ppe.plainv.map PlainV.bytes).map List.length).sum + (e.ppe.plain.length - e.ppe.plainvOffset)
  fits : e.ppe.hdlen + e.ppe.payloadlen + e.ppe.maxOverhead ≤ e.ppe.cap

variable {maxOverhead : Nat} {h : TxHd} {e : PktEncoder} {bytes : Bytes}

theorem Ready.fits (he : Ready maxOverhead h e bytes) :
    e.ppe.hdlen + e.ppe.payloadlen + e.ppe.maxOverhead ≤ e.ppe.cap := by
  have hroom := he.room
  have hpayload := he.inv.payload_le
  omega

theorem Ready.consistent (he : Ready maxOverhead h e bytes) : e.Consistent := by
  refine ⟨?_, he.fits⟩
  rw [he.holds.payloadlen, ← he.holds.contents, Ppe.contents, List.length_append, List.length_flatten, List.length_drop]

/-- There is never a payload behind the header that the plaintext storage does not have. -/
theorem Ready.sync (he : Ready maxOverhead h e bytes) : e.syncLegacyPayload = (.ok, e) := by
  rw [syncLegacyPayload]
  by_cases hzero : e.ppe.payloadlen = 0
  · rw [if_pos (Or.inr (he.synced hzero))]
  · rw [if_pos (Or.inl hzero)]

theorem encodeHd_ready {out : Bytes} {dgramOffset : Nat} (he : encodeHd out maxOverhead dgramOffset h = .ok e) :
    Ready maxOverhead h e [] := by
  rw [encodeHd] at he
  split at he
  · rename_i t ht
    cases he
    obtain ⟨hholds, hmax⟩ := TxPkt.encodeHd_ok ht
    have hpos := h.numlen_pos
    have hhdlen := hholds.hdlen
    have hpno := hholds.pktNumOffset
    have hbytes := hholds.hdBytes
    have hgt : t.pktNumOffset < t.ppe.hdlen := by
      rw [hhdlen, hbytes, hpno]
      cases hform : h.hd.longForm with
      | true =>
          simp only [if_true, TxHd.encodeHdLong, List.length_append, putUvarint30_length, TxHd.pktNumField,
            putUintbe_length, h.longPrelude_length]
          omega
      | false =>
          simp only [Bool.false_eq_true, if_false, TxHd.encodeHdShort, List.length_cons, List.length_append,
            TxHd.pktNumField, putUintbe_length]
          omega
    obtain ⟨hle, hsample, hppe⟩ := TxPkt.encodeHd_fits ht
    have hcap : t.ppe.cap = out.length := by rw [hppe]
    refine ⟨hholds, hmax, ?_, by simp only; omega, by simp only; omega, hgt, ?_, ?_, ?_⟩
    · rw [hppe]
      exact ⟨Nat.le_refl _, Nat.le_refl _, Nat.zero_le _, Nat.zero_le _⟩
    · simp only
      rw [writeAt_length (by omega), hcap]
    · simp only
      rw [hhdlen]
      exact writeAt_zero
    · intro _
      exact Nat.le_of_eq hhdlen.symm
  · cases he

theorem packetPlainLeft_eq {ppe : Ppe} (hfits : ppe.hdlen + ppe.payloadlen + ppe.maxOverhead ≤ ppe.cap) :
    ppe.packetPlainLeft = ppe.cap - (ppe.hdlen + ppe.payloadlen + ppe.maxOverhead) := by
  rw [Ppe.packetPlainLeft]
  split_ifs <;> omega

theorem encodeFrame_ready {e' : PktEncoder} {fr : Frame} (he : Ready maxOverhead h e bytes)
    (hfr : e.encodeFrame fr = (.ok, e')) : Ready maxOverhead h e' (bytes ++ Pkt.encodeFrame fr.contiguous) := by
  have hbytes := he.holds
  have hinv := Ppe.encodeFrame_inv he.inv fr
  rw [encodeFrame] at hfr
  cases hppe : e.ppe.encodeFrame fr with
  | mk rv ppe =>
      rw [hppe] at hfr hinv
      cases hfr
      have happ := Ppe.encodeFrame_ok he.inv.offset_le hppe
      rw [Frame.wire_contiguous] at happ
      have hroom := he.room
      have hgt := he.hdlen_gt
      have hsample := he.sample
      simp only at hinv
      refine ⟨⟨hbytes.hdBytes, hbytes.lenOffset, hbytes.pktNumOffset, hbytes.pktNumlen, hbytes.pktNum, ?_, ?_, ?_,
        happ.offset_le⟩, ?_, hinv, ?_, ?_, ?_, ?_, ?_, ?_⟩
      all_goals simp only [happ.hdlen, happ.maxOverhead, happ.cap]
      · exact hbytes.hdlen
      · rw [happ.contents, hbytes.contents]
      · rw [happ.payloadlen, hbytes.payloadlen, List.length_append]
      · exact he.overhead
      · exact hroom
      · exact hsample
      · exact hgt
      · exact he.out_length
      · exact he.header
      · intro hzero
        have hpayload := happ.payloadlen
        exact he.synced (by omega)

/-- The encoder with `len` zeros more. -/
def withZeros (t : TxPkt) (len : Nat) : TxPkt :=
  { t with ppe := { t.ppe with
    plain := t.ppe.plain ++ List.replicate len 0
    payloadlen := t.ppe.payloadlen + len } }

theorem withZeros_holds {t : TxPkt} (ht : t.Holds h bytes) (len : Nat) :
    (withZeros t len).Holds h (bytes ++ List.replicate len 0) := by
  have happ := Ppe.appends_plain ht.offset_le (List.replicate len 0)
  have hcontents := happ.contents
  rw [List.length_replicate] at hcontents
  refine ⟨ht.hdBytes, ht.lenOffset, ht.pktNumOffset, ht.pktNumlen, ht.pktNum, ht.hdlen, ?_, ?_, happ.offset_le⟩
  · rw [withZeros, hcontents, ht.contents]
  · simp only [withZeros, ht.payloadlen, List.length_append, List.length_replicate]

theorem withZeros_inv {t : TxPkt} (ht : Ppe.Inv t.ppe)
    (hfits : t.ppe.hdlen + t.ppe.payloadlen + t.ppe.maxOverhead ≤ t.ppe.cap) {len : Nat}
    (hlen : len ≤ t.ppe.packetPlainLeft) : Ppe.Inv (withZeros t len).ppe := by
  obtain ⟨hplain, hoff, hplainv, -⟩ := ht
  rw [packetPlainLeft_eq hfits] at hlen
  refine ⟨?_, ?_, hplainv, ?_⟩
  · simp only [withZeros, List.length_append, List.length_replicate]
    omega
  · simp only [withZeros, List.length_append, List.length_replicate]
    omega
  · simp only [withZeros]
    omega

/-- Padding that fits is appended. -/
theorem pad_spec {t : TxPkt} {k : Nat} (hk : k ≤ min t.ppe.plainLeft t.ppe.packetPlainLeft)
    (hmin : t.pktLen + t.ppe.maxOverhead < t.pktNumOffset + 4 + Ppe.hpSamplelen →
      t.pktNumOffset + 4 + Ppe.hpSamplelen - (t.pktLen + t.ppe.maxOverhead) ≤ min t.ppe.plainLeft t.ppe.packetPlainLeft) :
    ∃ len, len ≤ min t.ppe.plainLeft t.ppe.packetPlainLeft ∧
      t.pad k = .ok (len, withZeros t len) := by
  rw [TxPkt.pad]
  simp only
  split
  · rename_i hlt
    have hle := hmin hlt
    refine ⟨_, Nat.max_le.mpr ⟨hk, hle⟩, ?_⟩
    rw [if_neg (by omega)]
    rfl
  · refine ⟨k, hk, ?_⟩
    rw [if_neg (by omega)]
    rfl

/-- The padding that is needed for the sample always fits. -/
theorem Ready.sample_fits (he : Ready maxOverhead h e bytes)
    (hlt : e.pktLen + e.ppe.maxOverhead < e.pktNumOffset + 4 + Ppe.hpSamplelen) :
    e.pktNumOffset + 4 + Ppe.hpSamplelen - (e.pktLen + e.ppe.maxOverhead) ≤
      min e.ppe.plainLeft e.ppe.packetPlainLeft := by
  have hsample := he.sample
  have hgt := he.hdlen_gt
  have hplain := he.inv.plain_le
  rw [packetPlainLeft_eq he.fits, Ppe.plainLeft]
  simp only [TxPkt.pktLen, Ppe.hpSamplelen, Ppe.maxTxUdpPayloadSize] at hlt hsample ⊢
  omega

theorem padTxPkt_spec (he : Ready maxOverhead h e bytes) (p : Padding) :
    ∃ len, len ≤ min e.ppe.plainLeft e.ppe.packetPlainLeft ∧
      padTxPkt e.toTxPkt p = .ok (len, withZeros e.toTxPkt len) := by
  cases p with
  | size n =>
      apply pad_spec
      · omega
      · exact he.sample_fits
  | dgramSize n =>
      apply pad_spec
      · omega
      · exact he.sample_fits
  | dgram =>
      apply pad_spec
      · omega
      · exact he.sample_fits

/-- The zeros in the packet buffer lie behind the header. -/
theorem padOut_spec (he : Ready maxOverhead h e bytes) (len : Nat) (t : TxPkt) :
    (e.padOut len t).toTxPkt = t ∧ (e.padOut len t).out.length = e.ppe.cap ∧
      (e.padOut len t).out.take e.ppe.hdlen = e.hdBytes ∧ (len = 0 → (e.padOut len t).last = e.last) := by
  rw [padOut]
  split
  · exact ⟨rfl, he.out_length, he.header, fun _ => rfl⟩
  rename_i hne
  split
  · rename_i hle
    have hfits := he.fits
    have hout := he.out_length
    have hlen : e.pktLen = e.ppe.hdlen + e.ppe.payloadlen := rfl
    refine ⟨rfl, ?_, ?_, fun hzero => absurd hzero hne⟩
    · rw [writeAt_length (by rw [List.length_replicate]; omega), hout]
    · rw [writeAt_take (by omega) (by omega), he.header]
  · exact ⟨rfl, he.out_length, he.header, fun hzero => absurd hzero hne⟩

/-- The padding functions fail no assertion, and append zeros. -/
theorem padding_ready (he : Ready maxOverhead h e bytes) (p : Padding) :
    ∃ len e', e.padding p = .ok (len, e') ∧ Ready maxOverhead h e' (bytes ++ List.replicate len 0) := by
  obtain ⟨len, hlen, hpad⟩ := padTxPkt_spec he p
  obtain ⟨htx, hout, hheader, hlast⟩ := padOut_spec he len (withZeros e.toTxPkt len)
  refine ⟨len, e.padOut len (withZeros e.toTxPkt len), ?_, ?_⟩
  · rw [padding, he.sync]
    simp only [hpad]
  · have hholds := withZeros_holds he.holds len
    have hinv := withZeros_inv he.inv he.fits (Nat.le_trans hlen (Nat.min_le_right _ _))
    have hpayload : (withZeros e.toTxPkt len).ppe.payloadlen = e.ppe.payloadlen + len := rfl
    generalize he' : e.padOut len (withZeros e.toTxPkt len) = e' at htx hout hheader hlast
    rw [← htx] at hholds hinv hpayload
    have hppe : e'.ppe = (withZeros e.toTxPkt len).ppe := by rw [← htx]
    have hpno : e'.pktNumOffset = e.pktNumOffset := by rw [htx]; rfl
    have hbytes : e'.hdBytes = e.hdBytes := by rw [htx]; rfl
    have hcap : e'.ppe.cap = e.ppe.cap := by rw [hppe]; rfl
    have hhdlen : e'.ppe.hdlen = e.ppe.hdlen := by rw [hppe]; rfl
    have hover : e'.ppe.maxOverhead = e.ppe.maxOverhead := by rw [hppe]; rfl
    refine ⟨hholds, hover.trans he.overhead, hinv, ?_, ?_, ?_, ?_, ?_, ?_⟩
    · rw [hhdlen, hover, hcap]
      exact he.room
    · rw [hpno, hcap]
      exact he.sample
    · rw [hpno, hhdlen]
      exact he.hdlen_gt
    · rw [hout, hcap]
    · rw [hhdlen, hbytes]
      exact hheader
    · intro hzero
      rw [hlast (by omega), hhdlen]
      exact he.synced (by omega)

/-- What the encoder hands to `protect_pkt`. -/
theorem final_ready (he : Ready maxOverhead h e bytes) {handed : Handed} (hfinal : e.final = (.ok, some handed)) :
    (handed.plainv.map PlainV.bytes).flatten = bytes ∧ handed.aad = e.toTxPkt.header := by
  rw [final, he.sync] at hfinal
  dsimp only at hfinal
  split at hfinal
  · rename_i ppe hflush
    cases hfinal
    obtain ⟨-, hflat⟩ := Ppe.flushControl_ok hflush
    refine ⟨hflat.trans he.holds.contents, ?_⟩
    simp only [putLength, TxPkt.header]
    split
    · exact he.header
    · have hlen : (putUvarint30 ((e.ppe.payloadlen + e.pktNumlen + e.ppe.maxOverhead) % 2 ^ 16)).length = 4 :=
        putUvarint30_length _
      have hgt := he.hdlen_gt
      have hroom := he.room
      have hout := he.out_length
      have hoffset : e.lenOffset + 4 ≤ e.ppe.hdlen := by
        have hlo := he.holds.lenOffset
        have hpno := he.holds.pktNumOffset
        cases hform : h.hd.longForm with
        | true =>
            rw [hform, if_pos rfl] at hlo hpno
            omega
        | false =>
            rw [hform, if_neg Bool.false_ne_true] at hlo
            contradiction
      rw [writeAt_within (by rw [hlen]; exact hoffset) (by omega), he.header, hlen]
      rfl
  · cases hfinal

/-- The Length field in the bytes of a long header. -/
def lengthField (h : TxHd) (hd : Bytes) : Nat :=
  getUvarint (hd.drop (h.longPrelude h.firstLong).length)

theorem Ready.lengthField_eq (he : Ready maxOverhead h e bytes) (hlong : h.hd.longForm = true)
    (hlt : h.hd.pktNumlen + e.ppe.payloadlen + maxOverhead < 2 ^ 16) :
    lengthField h e.toTxPkt.header = h.hd.pktNumlen + e.ppe.payloadlen + maxOverhead := by
  have hoffset := he.holds.lenOffset
  have hbytes := he.holds.hdBytes
  rw [if_pos hlong] at hoffset hbytes
  have hprelude : (h.longPrelude 0).length = (h.longPrelude h.firstLong).length := by
    rw [h.longPrelude_length, h.longPrelude_length]
  rw [hprelude] at hoffset
  have hpos : e.lenOffset ≠ 0 := by
    rw [hoffset, h.longPrelude_length]
    omega
  have htake : e.hdBytes.take e.lenOffset = h.longPrelude h.firstLong := by
    rw [hbytes, hoffset, TxHd.encodeHdLong, List.take_left]
  rw [TxPkt.header, if_neg hpos, htake, lengthField, List.drop_left, he.overhead, he.holds.pktNumlen]
  rw [Nat.mod_eq_of_lt (by omega), getUvarint_putUvarint30 (by omega)]
  omega

/-- A call of one of the padding functions, or none. -/
def paddingIf (e : PktEncoder) : Option Padding → Except Fault (Nat × PktEncoder)
  | none => .ok (0, e)
  | some p => e.padding p

end PktEncoder

/-- The plaintext of the frames, encoded one after the other. -/
def plaintext (frs : List Frame) : Bytes :=
  (frs.map fun fr => encodeFrame fr.contiguous).flatten

theorem Assembled.ready {maxOverhead : Nat} {h : TxHd} {e : PktEncoder} {frs : List Frame}
    (he : Assembled maxOverhead h e frs) : e.Ready maxOverhead h (plaintext frs) := by
  induction he with
  | start he => exact PktEncoder.encodeHd_ready he
  | frame _ hfr ih =>
      have hready := PktEncoder.encodeFrame_ready ih hfr
      rw [plaintext] at hready ⊢
      simpa using hready
  | @refused e e' frs fr _ hfr ih =>
      have hsame : e' = e := by
        rw [PktEncoder.encodeFrame] at hfr
        cases hppe : e.ppe.encodeFrame fr with
        | mk rv ppe =>
            rw [hppe] at hfr
            cases hfr
            rw [Ppe.encodeFrame_nobuf hppe]
      rw [hsame]
      exact ih

/-- A short header, in a packet of 60 bytes. -/
def shortHd : TxHd where
  hd := { type := .oneRtt, dcid := [1, 2, 3, 4], pktNum := 9, pktNumlen := 1 }
  dcid_le := by decide
  scid_le := by decide
  version_lt := by decide
  token_lt := by decide
  len_lt := by decide
  numlen_pos := by decide
  numlen_le := by decide
  num_le := by decide
  type_long := by decide
  type_short := by decide
  keyPhase_short := by decide

/-- A PING, and the byte of a retained buffer. -/
def pingAndByte : Option PktEncoder :=
  match PktEncoder.encodeHd (List.replicate 60 0xAA) 16 0 shortHd with
  | .ok e =>
      match e.encodeFrame .ping with
      | (.ok, e) =>
          match e.encodeFrame Ppe.oneByte with
          | (.ok, e) => some e
          | _ => none
      | _ => none
  | .error _ => none

theorem pingAndByte_assembled {e : PktEncoder} (h : pingAndByte = some e) :
    Assembled 16 shortHd e [.ping, Ppe.oneByte] := by
  rw [pingAndByte] at h
  split at h
  · rename_i e₀ hstart
    split at h
    · rename_i e₁ hping
      split at h
      · rename_i hbyte
        cases h
        exact .frame (.frame (.start hstart) hping) hbyte
      · cases h
    · cases h
  · cases h

end Zngtcp2.Pkt
