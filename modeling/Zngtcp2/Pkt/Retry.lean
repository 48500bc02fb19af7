import Zngtcp2.Lib.Run
import Zngtcp2.Pkt.HdCodec
import Zngtcp2.Token.Model

namespace Zngtcp2.Pkt

open Lib.Run (bind_ok)
open Token (Cid)

def retryTaglen : Nat := 16

def minInitialDcidlen : Nat := 8

/-- The size of the arrays `pseudo_retry`. -/
def pseudoRetrySize : Nat := 1500

def retryNonceV1 : Bytes :=
  [0x46, 0x15, 0x99, 0xD3, 0x5D, 0x63, 0x2B, 0xF2, 0x23, 0x98, 0x25, 0xBB]

def retryNonceV2 : Bytes :=
  [0xD8, 0x69, 0x69, 0xBC, 0x2D, 0x7C, 0x6D, 0x99, 0x90, 0xEF, 0xB0, 0x4A]

def retryNonce (version : Nat) : Bytes :=
  if version = protoVerV2 then retryNonceV2 else retryNonceV1

/-- `ops->encrypt_retry` with its contexts: from the plaintext, the nonce and the additional data, the bytes
that it leaves in the buffer for the tag. -/
abbrev EncryptRetry :=
  Bytes → Bytes → Bytes → Except Err Bytes

/-- A buffer for a packet: whether `pkt_validate_tx_dest` accepts it, and the room behind `pos`. -/
structure TxDest where
  valid : Bool
  destlen : Nat

structure PktRetry where
  odcid : Cid
  token : Bytes
  tag : Bytes

/-- The first byte of a Retry packet; the length of the packet number is set to 1. -/
def firstRetry (version : Nat) : UInt8 :=
  (0x80 : UInt8) ||| (pktVersionedType version .retry <<< 4) ||| UInt8.ofNat (1 - 1) ||| 0x40

/-- `ngtcp2_pkt_encode_hd_long` for a Retry packet, which has no Length field and no packet number. -/
def encodeHdRetry (version : Nat) (dcid scid : Cid) (outlen : Nat) : Dec Bytes :=
  if outlen < minLongHeaderlen + dcid.data.length + scid.data.length - 2 then .error (.err .nobuf)
  else
    .ok (firstRetry version :: (putUintbe 4 version ++ (UInt8.ofNat dcid.data.length :: (dcid.data ++
      (UInt8.ofNat scid.data.length :: scid.data)))))

/-- The low bits of the first byte become `unused`. -/
def setUnused (unused : UInt8) : Bytes → Bytes
  | [] => []
  | b :: bs => ((b &&& 0xF0) ||| unused) :: bs

/-- `ngtcp2_pkt_encode_pseudo_retry` -/
def pktEncodePseudoRetry (destlen version : Nat) (dcid scid : Cid) (unused : UInt8) (odcid : Cid) (token : Bytes) :
    Dec Bytes :=
  if destlen < 1 + odcid.data.length then .error (.err .nobuf)
  else do
    let p := UInt8.ofNat odcid.data.length :: odcid.data
    let destlen := destlen - p.length
    let hd ← encodeHdRetry version dcid scid destlen
    if destlen < hd.length + token.length then .error (.err .nobuf)
    else .ok (p ++ (setUnused unused hd ++ token))

/-- The tag of the pseudo-Retry packet, as both sides compute it. -/
def retryTag (encryptRetry : EncryptRetry) (version : Nat) (pseudoRetry : Bytes) : Dec Bytes :=
  match encryptRetry [] (retryNonce version) pseudoRetry with
  | .error rv => .error (.err (if rv = .bufContract then rv else .callbackFailure))
  | .ok tag => if tag.length ≠ retryTaglen then .error (.err .bufContract) else .ok tag

/-- `ngtcp2_pkt_write_retry`, with the bytes that it writes. -/
def pktWriteRetry (ops : Option EncryptRetry) (dest : TxDest) (version : Nat) (dcid scid odcid : Cid) (token : Bytes) :
    Dec Bytes :=
  if token = [] ∨ scid = odcid then .error .assertion
  else if odcid.data.length < minInitialDcidlen then .error (.err .invalidArgument)
  else
    match ops with
    | none => .error (.err .bufContract)
    | some encryptRetry =>
        if dest.valid = false then .error (.err .bufContract)
        else do
          let pseudoRetry ← pktEncodePseudoRetry pseudoRetrySize version dcid scid 0 odcid token
          let tag ← retryTag encryptRetry version pseudoRetry
          let offset := 1 + odcid.data.length
          if dest.destlen < pseudoRetry.length + retryTaglen - offset then .error (.err .nobuf)
          else .ok (pseudoRetry.drop offset ++ tag)

/-- `ngtcp2_pkt_decode_retry`: the token and the tag. -/
def pktDecodeRetry (payload : Bytes) : Dec (Bytes × Bytes) :=
  if payload.length < 1 + retryTaglen then .error (.err .invalidArgument)
  else .ok (payload.take (payload.length - retryTaglen), payload.drop (payload.length - retryTaglen))

/-- The pseudo-Retry packet of the verifier, which copies what it received. -/
def receivedPseudoRetry (odcid : Cid) (pkt : Bytes) : Bytes :=
  UInt8.ofNat odcid.data.length :: (odcid.data ++ pkt.take (pkt.length - retryTaglen))

/-- `ngtcp2_pkt_verify_retry_tag` -/
def pktVerifyRetryTag (ops : Option EncryptRetry) (version : Nat) (retry : PktRetry) (pkt : Bytes) : Dec Unit :=
  if pkt.length < retryTaglen then .error .assertion
  else if pseudoRetrySize < 1 + retry.odcid.data.length + pkt.length - retryTaglen then .error (.err .proto)
  else
    match ops with
    | none => .error (.err .bufContract)
    | some encryptRetry => do
        let tag ← retryTag encryptRetry version (receivedPseudoRetry retry.odcid pkt)
        if retry.tag ≠ tag then .error (.err .proto) else .ok ()

theorem firstRetry_spec {version : Nat} (hver : isSupportedVersion version = true) :
    (firstRetry version &&& 0xF0) ||| 0 = firstRetry version ∧ firstRetry version &&& 0x80 ≠ 0 ∧
      pktGetTypeLong version (firstRetry version) = some .retry := by
  simp only [isSupportedVersion, decide_eq_true_eq] at hver
  rcases hver with rfl | rfl <;> decide

theorem supported_lt {version : Nat} (hver : isSupportedVersion version = true) : version < 2 ^ 32 := by
  simp only [isSupportedVersion, decide_eq_true_eq] at hver
  rcases hver with rfl | rfl <;> decide

/-- The bytes of a Retry packet up to the token. -/
def retryPrelude (version : Nat) (dcid scid : Cid) : Bytes :=
  firstRetry version :: (putUintbe 4 version ++ (UInt8.ofNat dcid.data.length :: (dcid.data ++
    (UInt8.ofNat scid.data.length :: scid.data))))

theorem retryPrelude_length (version : Nat) (dcid scid : Cid) :
    (retryPrelude version dcid scid).length = 7 + (dcid.data.length + scid.data.length) := by
  simp only [retryPrelude, List.length_cons, List.length_append, putUintbe_length]
  omega

section RoundTrip

variable {version : Nat} {dcid scid odcid : Cid} {token : Bytes}

theorem pktEncodePseudoRetry_ok (hver : isSupportedVersion version = true) {destlen : Nat} {p : Bytes}
    (h : pktEncodePseudoRetry destlen version dcid scid 0 odcid token = .ok p) :
    p = (UInt8.ofNat odcid.data.length :: odcid.data) ++ (retryPrelude version dcid scid ++ token) ∧ p.length ≤ destlen := by
  rw [pktEncodePseudoRetry] at h
  split at h
  · cases h
  rename_i hodcid
  obtain ⟨hd, hhd, h⟩ := bind_ok h
  rw [encodeHdRetry] at hhd
  split at hhd
  · cases hhd
  split at h
  · cases h
  rename_i hlen
  cases hhd
  cases h
  rw [setUnused, (firstRetry_spec hver).1]
  refine ⟨rfl, ?_⟩
  simp only [List.length_cons, List.length_append] at hlen ⊢
  omega

theorem retryTag_length {encryptRetry : EncryptRetry} {p tag : Bytes} (h : retryTag encryptRetry version p = .ok tag) :
    tag.length = retryTaglen := by
  rw [retryTag] at h
  split at h
  · cases h
  split at h
  · cases h
  rename_i htag
  cases h
  exact not_not.mp htag

/-- What a Retry packet consists of when it is written. -/
theorem pktWriteRetry_ok (hver : isSupportedVersion version = true) {encryptRetry : EncryptRetry} {dest : TxDest} {pkt : Bytes}
    (h : pktWriteRetry (some encryptRetry) dest version dcid scid odcid token = .ok pkt) :
    ∃ pseudoRetry tag, pktEncodePseudoRetry pseudoRetrySize version dcid scid 0 odcid token = .ok pseudoRetry ∧
      retryTag encryptRetry version pseudoRetry = .ok tag ∧ pkt = retryPrelude version dcid scid ++ (token ++ tag) ∧
      pkt.length ≤ dest.destlen := by
  rw [pktWriteRetry] at h
  split at h
  · cases h
  split at h
  · cases h
  simp only at h
  split at h
  · cases h
  obtain ⟨pseudoRetry, hpseudo, h⟩ := bind_ok h
  obtain ⟨tag, htag, h⟩ := bind_ok h
  split at h
  · cases h
  rename_i hroom
  cases h
  obtain ⟨hbytes, -⟩ := pktEncodePseudoRetry_ok hver hpseudo
  have hoffset : 1 + odcid.data.length = (UInt8.ofNat odcid.data.length :: odcid.data).length := by
    rw [List.length_cons, Nat.add_comm]
  have hdrop : pseudoRetry.drop (1 + odcid.data.length) = retryPrelude version dcid scid ++ token := by
    rw [hbytes, hoffset, List.drop_left]
  have hlength : pseudoRetry.length = 1 + odcid.data.length + (retryPrelude version dcid scid ++ token).length := by
    rw [hoffset, ← List.length_append, hbytes]
  refine ⟨pseudoRetry, tag, hpseudo, htag, ?_, ?_⟩
  · rw [hdrop, List.append_assoc]
  · rw [hdrop, List.length_append, retryTag_length htag]
    omega

theorem noToken_lt : ([] : Bytes).length < 2 ^ 62 := by
  simp

theorem noLen_lt : 0 < 2 ^ 30 := by
  simp

/-- A header with the same version and connection IDs, of a type that has a packet number. -/
def handshakeHd (version : Nat) (dcid scid : Cid) (hver : isSupportedVersion version = true) : TxHd where
  hd := { longForm := true, type := .handshake, version := version, dcid := dcid.data, scid := scid.data, pktNumlen := 1 }
  dcid_le := dcid.datalen_le
  scid_le := scid.datalen_le
  version_lt := supported_lt hver
  token_lt := noToken_lt
  len_lt := noLen_lt
  numlen_pos := Nat.le_refl 1
  numlen_le := by simp
  num_le := Nat.zero_le _
  type_long := fun _ => Or.inr (Or.inr rfl)
  type_short := by simp
  keyPhase_short := by simp

theorem retryPrelude_eq (hver : isSupportedVersion version = true) :
    retryPrelude version dcid scid = (handshakeHd version dcid scid hver).longPrelude (firstRetry version) := by
  rw [retryPrelude, TxHd.longPrelude, TxHd.tokenField, handshakeHd, if_neg (by simp), List.append_nil]

theorem decodeHdLong_retry (hver : isSupportedVersion version = true) (rest : Bytes) :
    decodeHdLong (retryPrelude version dcid scid ++ rest) =
      some ((retryPrelude version dcid scid).length, {
        longForm := true
        fixedBitClear := firstRetry version &&& 0x40 = 0
        type := .retry
        version := version
        dcid := dcid.data
        scid := scid.data }) := by
  obtain ⟨-, hform, htype⟩ := firstRetry_spec hver
  have hlen := retryPrelude_length version dcid scid
  rw [retryPrelude_eq hver] at hlen ⊢
  refine TxHd.decodeHdLong_prelude hver hform htype ?_ ?_
  · rw [List.length_append, hlen]
    exact Nat.le_add_right _ _
  · rw [hlen]
    rfl

/-- A Retry packet that is written is decoded to the version, the connection IDs and the token it was written
with, and its tag is verified: the additional data are the same on both sides. -/
theorem pktWriteRetry_roundTrips (hver : isSupportedVersion version = true) (encryptRetry : EncryptRetry) (dest : TxDest)
    (pkt : Bytes) (h : pktWriteRetry (some encryptRetry) dest version dcid scid odcid token = .ok pkt) :
    ∃ nread hd tag, decodeHdLong pkt = some (nread, hd) ∧ hd.type = .retry ∧ hd.version = version ∧
      hd.dcid = dcid.data ∧ hd.scid = scid.data ∧ tag.length = retryTaglen ∧
      pktDecodeRetry (pkt.drop nread) = .ok (token, tag) ∧
      pktVerifyRetryTag (some encryptRetry) version ⟨odcid, token, tag⟩ pkt = .ok () ∧
      pktEncodePseudoRetry pseudoRetrySize version dcid scid 0 odcid token = .ok (receivedPseudoRetry odcid pkt) := by
  obtain ⟨pseudoRetry, tag, hpseudo, htag, hpkt, -⟩ := pktWriteRetry_ok hver h
  obtain ⟨hbytes, hsize⟩ := pktEncodePseudoRetry_ok hver hpseudo
  have htaglen := retryTag_length htag
  have htoken : 0 < token.length := by
    apply List.length_pos_iff.mpr
    rintro rfl
    simp [pktWriteRetry] at h
  have hlen : pkt.length = (retryPrelude version dcid scid ++ token).length + retryTaglen := by
    rw [hpkt, ← List.append_assoc, List.length_append, htaglen]
  have hreceived : receivedPseudoRetry odcid pkt = pseudoRetry := by
    have htake : pkt.take (pkt.length - retryTaglen) = retryPrelude version dcid scid ++ token := by
      rw [hlen, Nat.add_sub_cancel, hpkt, ← List.append_assoc, List.take_left]
    rw [receivedPseudoRetry, htake, hbytes, List.cons_append]
  refine ⟨_, _, tag, hpkt ▸ decodeHdLong_retry hver (token ++ tag), rfl, rfl, rfl, rfl, htaglen, ?_, ?_, ?_⟩
  · have hdecoded : (token ++ tag).length - retryTaglen = token.length := by
      rw [List.length_append, htaglen, Nat.add_sub_cancel]
    rw [hpkt, List.drop_left, pktDecodeRetry, if_neg (by rw [List.length_append, htaglen]; omega), hdecoded,
      List.take_left, List.drop_left]
  · have hfits : ¬ pseudoRetrySize < 1 + odcid.data.length + pkt.length - retryTaglen := by
      rw [hbytes, List.length_append, List.length_cons] at hsize
      omega
    rw [pktVerifyRetryTag, if_neg (by omega), if_neg hfits, hreceived]
    simp only [htag, bind, Except.bind]
    rw [if_neg (by simp)]
  · rw [hreceived, hpseudo]

end RoundTrip

/-- A tag that depends on the nonce and on the length of the additional data. -/
def sampleEncryptRetry : EncryptRetry := fun _ nonce aad =>
  .ok (nonce ++ [UInt8.ofNat aad.length, 1, 2, 3])

def sampleCid (b : UInt8) : Cid :=
  ⟨List.replicate 8 b, by simp [Token.maxCidlen]⟩

theorem pktWriteRetry_roundTrips_v2 :
    ∃ pkt nread hd, pktWriteRetry (some sampleEncryptRetry) ⟨true, 1200⟩ protoVerV2 (sampleCid 1) (sampleCid 2) (sampleCid 3)
        [7, 7] = .ok pkt ∧ decodeHdLong pkt = some (nread, hd) ∧ hd.type = .retry ∧ hd.version = protoVerV2 := by
  obtain ⟨pkt, hpkt⟩ : ∃ pkt, pktWriteRetry (some sampleEncryptRetry) ⟨true, 1200⟩ protoVerV2 (sampleCid 1) (sampleCid 2)
      (sampleCid 3) [7, 7] = .ok pkt := ⟨_, rfl⟩
  obtain ⟨nread, hd, tag, hdec, htype, hversion, -⟩ :=
    pktWriteRetry_roundTrips (by decide) sampleEncryptRetry ⟨true, 1200⟩ pkt hpkt
  exact ⟨pkt, nread, hd, hpkt, hdec, htype, hversion⟩

end Zngtcp2.Pkt
