import Zngtcp2.Pkt.DecodeBounds

namespace Zngtcp2.Pkt

open Lib.Run (Ends)

/-- A decoded header that refers to the bytes of the packet. -/
structure HdView where
  longForm : Bool := false
  fixedBitClear : Bool := false
  type : PktType
  version : Nat := 0
  dcid : Slice
  scid : Slice := ⟨0, 0⟩
  token : Slice := ⟨0, 0⟩
  len : Nat := 0
  deriving DecidableEq

/-- The connection IDs at the start of a packet; there is no source connection ID in a short header. -/
structure VersionCid where
  version : Nat
  dcid : Slice
  scid : Slice := ⟨0, 0⟩
  deriving DecidableEq

/-- The connection IDs and the token lie in the first `n` bytes. -/
def HdView.Within (v : HdView) (n : Nat) : Prop :=
  ∀ s ∈ [v.dcid, v.scid, v.token], s.off + s.len ≤ n

def VersionCid.Within (v : VersionCid) (n : Nat) : Prop :=
  ∀ s ∈ [v.dcid, v.scid], s.off + s.len ≤ n

def HdView.hd (pkt : Bytes) (v : HdView) : PktHd where
  longForm := v.longForm
  fixedBitClear := v.fixedBitClear
  type := v.type
  version := v.version
  dcid := v.dcid.bytes pkt
  scid := v.scid.bytes pkt
  token := v.token.bytes pkt
  len := v.len

section Decoders

variable (pkt : Bytes)

def requireLen (len : Nat) : Dec Unit :=
  if pkt.length < len then .error (.err .invalidArgument) else .ok ()

def readUint32be (p : Nat) : Dec Nat := do
  let (s, _) ← readBytes pkt p 4
  .ok (getUintbe (s.bytes pkt))

/-- `ngtcp2_cid_init` on bytes of the packet -/
def cidInit (p datalen : Nat) : Dec Slice :=
  if 20 < datalen then .error .assertion
  else do
    let (s, _) ← readBytes pkt p datalen
    .ok s

def readType (version : Nat) (c : UInt8) : Dec PktType :=
  if version = 0 then .ok .versionNegotiation
  else
    match pktGetTypeLong version c with
    | none => .error (.err .invalidArgument)
    | some type => .ok type

/-- The length of a connection ID, with the new `len`. -/
def readCidlen (len p : Nat) : Dec (Nat × Nat) := do
  let b ← byteAt pkt p
  if 20 < b.toNat then .error (.err .invalidArgument)
  else do
    requireLen pkt (len + b.toNat)
    .ok (len + b.toNat, b.toNat)

/-- The token: the new `len`, the length of its length, the place behind it, and the token. -/
def readToken (type : PktType) (len p : Nat) : Dec (Nat × Nat × Nat × Slice) :=
  if type = .initial then do
    let ntokenlen ← readUvarintlen pkt p
    requireLen pkt (len + (ntokenlen - 1))
    let (vi, p) ← readUvarint pkt p
    if pkt.length - (len + (ntokenlen - 1)) < vi then .error (.err .invalidArgument)
    else .ok (len + (ntokenlen - 1) + vi, ntokenlen, p + vi, ⟨p, vi⟩)
  else .ok (len, 0, p, ⟨0, 0⟩)

/-- The Length field: the new `len`, the length of the field, and its value. -/
def readLength (type : PktType) (len p : Nat) : Dec (Nat × Nat × Nat) :=
  if type = .retry ∨ type = .versionNegotiation then .ok (len, 0, 0)
  else do
    let nlonglen ← readUvarintlen pkt p
    requireLen pkt (len + (nlonglen - 1))
    let (vi, _) ← readUvarint pkt p
    .ok (len + (nlonglen - 1), nlonglen, vi)

/-- What follows the connection IDs: the new `len`, the length of the fields, the token and the value of
the Length field. -/
def readTail (type : PktType) (len p : Nat) : Dec (Nat × Nat × Slice × Nat) := do
  let (len, ntokenlen, p, token) ← readToken pkt type len p
  let (len, nlonglen, longlen) ← readLength pkt type len p
  .ok (len, ntokenlen + token.len + nlonglen, token, longlen)

/-- `ngtcp2_pkt_decode_hd_long`, where every byte that is read has to be in the packet -/
def readHdLong : Dec (Nat × HdView) := do
  requireLen pkt 5
  let c ← byteAt pkt 0
  if c &&& 0x80 = 0 then .error (.err .invalidArgument)
  else do
    let version ← readUint32be pkt 1
    let type ← readType version c
    requireLen pkt (minLongHdlen type)
    let (len, dcil) ← readCidlen pkt (minLongHdlen type) 5
    let (len, scil) ← readCidlen pkt len (6 + dcil)
    let (len, taillen, token, longlen) ← readTail pkt type len (7 + dcil + scil)
    let dcid ← cidInit pkt 6 dcil
    let scid ← cidInit pkt (7 + dcil) scil
    -- The assertion goes through the fields once more.
    if 7 + dcil + scil + taillen = len then
      .ok (len, {
        longForm := version ≠ 0
        fixedBitClear := version ≠ 0 ∧ c &&& 0x40 = 0
        type := type
        version := version
        dcid := dcid
        scid := scid
        token := token
        len := longlen })
    else .error .assertion

/-- `ngtcp2_pkt_decode_hd_short` -/
def readHdShort (dcidlen : Nat) : Dec (Nat × HdView) :=
  if 20 < dcidlen then .error .assertion
  else do
    requireLen pkt (1 + dcidlen)
    let c ← byteAt pkt 0
    if c &&& 0x80 ≠ 0 then .error (.err .invalidArgument)
    else do
      let dcid ← cidInit pkt 1 dcidlen
      .ok (1 + dcidlen, { fixedBitClear := c &&& 0x40 = 0, type := .oneRtt, dcid := dcid })

/-- `ngtcp2_pkt_decode_version_cid`: whether it asks for Version Negotiation, the length it has
accounted for, and what it found. -/
def readVersionCid (shortDcidlen : Nat) : Dec (Bool × Nat × VersionCid) :=
  if pkt.length = 0 then .error .assertion
  else do
    let c ← byteAt pkt 0
    if c &&& 0x80 ≠ 0 then do
      requireLen pkt 7
      let dcidlen ← byteAt pkt 5
      let len := 7 + dcidlen.toNat
      requireLen pkt len
      let scidlen ← byteAt pkt (6 + dcidlen.toNat)
      let len := len + scidlen.toNat
      requireLen pkt len
      let version ← readUint32be pkt 1
      if isSupportedVersion version ∧ (20 < dcidlen.toNat ∨ 20 < scidlen.toNat) then .error (.err .invalidArgument)
      else if version ≠ 0 ∧ isSupportedVersion version = false ∧ pkt.length < 1200 then .error (.err .invalidArgument)
      else
        .ok (version ≠ 0 ∧ isSupportedVersion version = false, len,
          ⟨version, ⟨6, dcidlen.toNat⟩, ⟨7 + dcidlen.toNat, scidlen.toNat⟩⟩)
    else if 20 < shortDcidlen then .error .assertion
    else do
      requireLen pkt (1 + shortDcidlen)
      .ok (false, 1 + shortDcidlen, { version := 0, dcid := ⟨1, shortDcidlen⟩ })

end Decoders

/-- The computation returns a value with the property, or refuses the packet; it neither reads out of
bounds nor fails an assertion. -/
abbrev HdSafe {α : Type} (P : α → Prop) (x : Dec α) : Prop :=
  Ends (· = .err .invalidArgument) P x

section Primitives

variable {pkt : Bytes}

theorem requireLen_safe (len : Nat) : HdSafe (fun _ => len ≤ pkt.length) (requireLen pkt len) := by
  rw [requireLen]
  split
  · exact rfl
  · rename_i hlen
    exact Nat.not_lt.mp hlen

theorem readBytes_eq {p n : Nat} (hp : p + n ≤ pkt.length) : readBytes pkt p n = .ok (⟨p, n⟩, p + n) := by
  rw [readBytes, if_neg (by omega)]

theorem readUint32be_eq {p : Nat} (hp : p + 4 ≤ pkt.length) :
    readUint32be pkt p = .ok (getUintbe ((pkt.drop p).take 4)) := by
  rw [readUint32be, readBytes_eq hp]
  rfl

theorem cidInit_eq {p n : Nat} (hn : n ≤ 20) (hp : p + n ≤ pkt.length) : cidInit pkt p n = .ok ⟨p, n⟩ := by
  rw [cidInit, if_neg (by omega), readBytes_eq hp]
  rfl

theorem readType_safe (version : Nat) (c : UInt8) :
    HdSafe (fun type => (if version = 0 then some .versionNegotiation else pktGetTypeLong version c) = some type)
      (readType version c) := by
  rw [readType]
  split
  · exact rfl
  · cases h : pktGetTypeLong version c with
    | none => exact rfl
    | some type => exact rfl

theorem readCidlen_safe {len p : Nat} (hp : p < pkt.length) :
    HdSafe (fun r => (pkt.getD p 0).toNat = r.2 ∧ r.2 ≤ 20 ∧ r.1 = len + r.2 ∧ r.1 ≤ pkt.length)
      (readCidlen pkt len p) := by
  rw [readCidlen, byteAt_eq hp]
  simp only [bind, Except.bind]
  split
  · exact rfl
  · rename_i hle
    apply Ends.bind (requireLen_safe (len + (pkt.getD p 0).toNat))
    intro _ hlen
    exact ⟨rfl, Nat.not_lt.mp hle, rfl, hlen⟩

theorem readToken_safe {p : Nat} (hle : p + 2 ≤ pkt.length) :
    HdSafe (fun r => decodeToken pkt (p + 2) p = some (r.1, r.2.2.1, r.2.2.2.bytes pkt) ∧
        r.2.2.1 = p + r.2.1 + r.2.2.2.len ∧ r.2.2.2.off + r.2.2.2.len = r.2.2.1)
      (readToken pkt .initial (p + 2) p) := by
  have hpos := uvarintlenAt_pos pkt p
  rw [readToken, if_pos rfl, readUvarintlen_eq (by omega)]
  simp only [bind, Except.bind]
  apply Ends.bind (requireLen_safe (p + 2 + (uvarintlenAt pkt p - 1)))
  intro _ hlen
  rw [readUvarint_eq (by omega)]
  simp only
  split
  · exact rfl
  · rename_i hvi
    refine ⟨?_, rfl, rfl⟩
    rw [uvarintlenAt] at hlen hvi ⊢
    rw [decodeToken, if_neg (by omega), if_neg hvi]
    rfl

theorem readLength_safe {type : PktType} {p : Nat} (htype : ¬(type = .retry ∨ type = .versionNegotiation))
    (hle : p + 1 ≤ pkt.length) :
    HdSafe (fun r => decodeLength pkt (p + 1) p = some (r.1, r.2.2) ∧ r.1 = p + r.2.1)
      (readLength pkt type (p + 1) p) := by
  have hpos := uvarintlenAt_pos pkt p
  rw [readLength, if_neg htype, readUvarintlen_eq (by omega)]
  simp only [bind, Except.bind]
  apply Ends.bind (requireLen_safe (p + 1 + (uvarintlenAt pkt p - 1)))
  intro _ hlen
  rw [readUvarint_eq (by omega)]
  constructor
  · rw [uvarintlenAt] at hlen ⊢
    rw [decodeLength, if_neg (by omega)]
  · simp only
    omega

end Primitives

theorem readTail_safe {pkt : Bytes} {type : PktType} {q : Nat} (hle : minLongHdlen type + q ≤ pkt.length) :
    HdSafe (fun r => decodeLongTail type pkt (minLongHdlen type + q) (7 + q) = some (r.1, r.2.2.1.bytes pkt, r.2.2.2) ∧
        r.1 = 7 + q + r.2.1 ∧ r.2.2.1.off + r.2.2.1.len ≤ r.1)
      (readTail pkt type (minLongHdlen type + q) (7 + q)) := by
  cases type with
  | initial =>
      simp only [minLongHdlen] at hle
      have hlen : minLongHdlen .initial + q = 7 + q + 2 := by
        simp only [minLongHdlen]
        omega
      rw [hlen, readTail]
      apply Ends.bind (readToken_safe (by omega))
      rintro ⟨len, ntokenlen, p, token⟩ ⟨htoken, hp, hend⟩
      have hbounds := decodeToken_bounds htoken
      simp only at hp hend hbounds ⊢
      obtain ⟨rfl, -, hroom⟩ := hbounds
      apply Ends.bind (readLength_safe (by decide) hroom)
      rintro ⟨len, nlonglen, longlen⟩ ⟨hlength, hl⟩
      simp only at hlength hl
      refine ⟨?_, by simp only; omega, by simp only; omega⟩
      rw [decodeLongTail, htoken]
      simp only [hlength, Option.map_some]
  | versionNegotiation =>
      rw [readTail, readToken, if_neg (by decide)]
      simp only [bind, Except.bind, readLength, or_true, if_true]
      refine ⟨?_, by simp only [minLongHdlen]; omega, by simp⟩
      simp [decodeLongTail, Slice.bytes]
  | retry =>
      rw [readTail, readToken, if_neg (by decide)]
      simp only [bind, Except.bind, readLength, true_or, if_true]
      refine ⟨?_, by simp only [minLongHdlen]; omega, by simp⟩
      simp [decodeLongTail, Slice.bytes]
  | _ =>
      simp only [minLongHdlen] at hle ⊢
      rw [show 9 - 1 + q = 7 + q + 1 by omega, readTail, readToken, if_neg (by decide)]
      simp only [bind, Except.bind]
      apply Ends.bind (readLength_safe (by decide) (by omega))
      rintro ⟨len, nlonglen, longlen⟩ ⟨hlength, hl⟩
      simp only at hlength hl
      refine ⟨?_, by simp only; omega, by simp⟩
      simp only [decodeLongTail, hlength, Option.map_some]
      simp [Slice.bytes]

theorem isLongForm_of_byte {pkt : Bytes} (h : pkt.getD 0 0 &&& 0x80 ≠ 0) : isLongForm pkt = true :=
  decide_eq_true h

/-- A long header is decoded or refused without a look outside the packet, and as it is decoded without
the checks. -/
theorem readHdLong_safe (pkt : Bytes) :
    HdSafe (fun r => r.1 ≤ pkt.length ∧ r.2.Within r.1 ∧ decodeHdLong pkt = some (r.1, r.2.hd pkt)) (readHdLong pkt) := by
  rw [readHdLong]
  apply Ends.bind (requireLen_safe 5)
  intro _ hfive
  rw [byteAt_eq (by omega)]
  simp only [bind, Except.bind]
  split
  · exact rfl
  rename_i hform
  rw [readUint32be_eq (by omega)]
  simp only
  apply Ends.bind (readType_safe _ _)
  intro type htype
  have hseven := minLongHdlen_ge type
  apply Ends.bind (requireLen_safe _)
  intro _ hmin
  apply Ends.bind (readCidlen_safe (by omega))
  rintro ⟨len, dcil⟩ ⟨hdcil, hdle, hlen, hroom⟩
  simp only at hdcil hdle hlen hroom
  subst hlen
  apply Ends.bind (readCidlen_safe (by omega))
  rintro ⟨len, scil⟩ ⟨hscil, hsle, hlen, hroom'⟩
  simp only at hscil hsle hlen hroom'
  subst hlen
  simp only [Nat.add_assoc]
  apply Ends.bind (readTail_safe (by omega))
  rintro ⟨len, taillen, token, longlen⟩ ⟨htail, hlen, htoken⟩
  simp only at htail hlen htoken
  have hbounds := decodeLongTail_bounds (by omega) htail
  simp only at hbounds
  rw [cidInit_eq hdle (by omega), cidInit_eq hsle (by omega)]
  simp only
  rw [if_pos (by omega)]
  refine ⟨hbounds.2, ?_, ?_⟩
  · intro s hs
    simp only [List.mem_cons, List.not_mem_nil, or_false] at hs
    rcases hs with rfl | rfl | rfl
    · simp only
      omega
    · simp only
      omega
    · exact htoken
  · apply decodeHdLong_iff.mpr
    exact ⟨type, dcil, scil, hfive, isLongForm_of_byte hform, htype, hdcil, hdle, hscil, hsle, by omega, htail, rfl⟩

/-- A short header is decoded or refused without a look outside the packet. -/
theorem readHdShort_safe (pkt : Bytes) {dcidlen : Nat} (hdcid : dcidlen ≤ 20) :
    HdSafe (fun r => r.1 ≤ pkt.length ∧ r.2.Within r.1 ∧ decodeHdShort pkt dcidlen = some (r.1, r.2.hd pkt))
      (readHdShort pkt dcidlen) := by
  rw [readHdShort, if_neg (by omega)]
  apply Ends.bind (requireLen_safe (1 + dcidlen))
  intro _ hlen
  rw [byteAt_eq (by omega)]
  simp only [bind, Except.bind]
  split
  · exact rfl
  rename_i hform
  rw [cidInit_eq hdcid hlen]
  refine ⟨hlen, ?_, ?_⟩
  · intro s hs
    simp only [List.mem_cons, List.not_mem_nil, or_false] at hs
    rcases hs with rfl | rfl | rfl
    · exact Nat.le_refl _
    · exact Nat.zero_le _
    · exact Nat.zero_le _
  · rw [decodeHdShort, if_neg (by omega), if_neg (by simpa [isLongForm] using hform)]
    simp [HdView.hd, Slice.bytes]

/-- The version and the connection IDs of a packet are found without a look outside it. -/
theorem readVersionCid_safe {pkt : Bytes} (hne : pkt ≠ []) {shortDcidlen : Nat} (hdcid : shortDcidlen ≤ 20) :
    HdSafe (fun r => r.2.1 ≤ pkt.length ∧ r.2.2.Within r.2.1) (readVersionCid pkt shortDcidlen) := by
  have hpos := List.length_pos_iff.mpr hne
  rw [readVersionCid, if_neg (by omega), byteAt_eq hpos]
  simp only [bind, Except.bind]
  split
  · apply Ends.bind (requireLen_safe 7)
    intro _ hseven
    rw [byteAt_eq (by omega)]
    simp only
    apply Ends.bind (requireLen_safe _)
    intro _ hdcidlen
    rw [byteAt_eq (by omega)]
    simp only
    apply Ends.bind (requireLen_safe _)
    intro _ hscidlen
    rw [readUint32be_eq (by omega)]
    simp only
    split
    · exact rfl
    split
    · exact rfl
    refine ⟨hscidlen, ?_⟩
    intro s hs
    simp only [List.mem_cons, List.not_mem_nil, or_false] at hs
    rcases hs with rfl | rfl
    · simp only
      omega
    · simp only
      omega
  · rw [if_neg (by omega)]
    apply Ends.bind (requireLen_safe (1 + shortDcidlen))
    intro _ hlen
    refine ⟨hlen, ?_⟩
    intro s hs
    simp only [List.mem_cons, List.not_mem_nil, or_false] at hs
    rcases hs with rfl | rfl
    · exact Nat.le_refl _
    · exact Nat.zero_le _

/-- Whatever the bytes are, the decoders of a header read no byte behind them and fail no assertion, and
what they return lies in the length that they consume. -/
theorem hdDecoders_safe (pkt : Bytes) {dcidlen : Nat} (hdcid : dcidlen ≤ 20) :
    HdSafe (fun r => r.1 ≤ pkt.length ∧ r.2.Within r.1) (readHdLong pkt) ∧
      HdSafe (fun r => r.1 ≤ pkt.length ∧ r.2.Within r.1) (readHdShort pkt dcidlen) ∧
      (pkt ≠ [] → HdSafe (fun r => r.2.1 ≤ pkt.length ∧ r.2.2.Within r.2.1) (readVersionCid pkt dcidlen)) := by
  refine ⟨?_, ?_, fun hne => readVersionCid_safe hne hdcid⟩
  · exact (readHdLong_safe pkt).mono fun _ h => ⟨h.1, h.2.1⟩
  · exact (readHdShort_safe pkt hdcid).mono fun _ h => ⟨h.1, h.2.1⟩

/-- A Retry packet of QUIC version 1 that ends before its source connection ID does. -/
def cutRetry : Bytes :=
  [0xF0, 0, 0, 0, 1, 2, 7, 7, 3, 9]

theorem hdDecoders_safe_cutRetry :
    (readHdLong cutRetry).toOption = none ∧
      HdSafe (fun r => r.2.1 ≤ cutRetry.length ∧ r.2.2.Within r.2.1) (readVersionCid cutRetry 20) :=
  ⟨by decide +kernel, (hdDecoders_safe cutRetry (Nat.le_refl 20)).2.2 (by decide)⟩

end Zngtcp2.Pkt
