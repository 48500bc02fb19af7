import Mathlib.Data.List.GetD
import Zngtcp2.Pkt.Frame

namespace Zngtcp2.Pkt

inductive PktType
  | versionNegotiation
  | initial
  | zeroRtt
  | handshake
  | retry
  | oneRtt
  deriving DecidableEq

structure PktHd where
  longForm : Bool := false
  fixedBitClear : Bool := false
  keyPhase : Bool := false
  type : PktType
  version : Nat := 0
  dcid : Bytes := []
  scid : Bytes := []
  token : Bytes := []
  len : Nat := 0
  pktNum : Nat := 0
  pktNumlen : Nat := 0
  deriving DecidableEq

def protoVerV1 : Nat := 0x00000001

def protoVerV2 : Nat := 0x6B3343CF

def isSupportedVersion (version : Nat) : Bool :=
  version = protoVerV1 ∨ version = protoVerV2

/-- `ngtcp2_pkt_get_type_long`, with `none` for 0. -/
def pktGetTypeLong (version : Nat) (c : UInt8) : Option PktType :=
  let pktType := (c &&& 0x30) >>> 4
  if version = protoVerV2 then
    if pktType = 1 then some .initial
    else if pktType = 2 then some .zeroRtt
    else if pktType = 3 then some .handshake
    else if pktType = 0 then some .retry
    else none
  else if isSupportedVersion version then
    if pktType = 0 then some .initial
    else if pktType = 1 then some .zeroRtt
    else if pktType = 2 then some .handshake
    else if pktType = 3 then some .retry
    else none
  else none

/-- The bytes as an integer, the most significant first. -/
def getUintbe (bs : Bytes) : Nat :=
  bs.foldl (fun n b => n * 256 + b.toNat) 0

def getUvarintlen (b : UInt8) : Nat :=
  2 ^ (b.toNat / 64)

/-- The integer at the beginning of `p`; the two bits that give its length are not part of it. -/
def getUvarint (p : Bytes) : Nat :=
  let n := getUvarintlen (p.getD 0 0)
  getUintbe (p.take n) % 2 ^ (8 * n - 2)

def isLongForm (pkt : Bytes) : Bool :=
  pkt.getD 0 0 &&& 0x80 ≠ 0

/-- The length of the fields that a packet of the type has in any case; the Token Length and the
Length field count one byte each, and the packet number is not among them. -/
def minLongHdlen : PktType → Nat
  | .initial => 1 + 9 - 1
  | .versionNegotiation | .retry => 5 + 2
  | _ => 9 - 1

/-- The token that begins at `p`, in a packet of which `len` bytes are accounted for, with the new
values of both. -/
def decodeToken (pkt : Bytes) (len p : Nat) : Option (Nat × Nat × Bytes) :=
  let ntokenlen := getUvarintlen (pkt.getD p 0)
  let len := len + (ntokenlen - 1)
  if pkt.length < len then none
  else
    let tokenlen := getUvarint (pkt.drop p)
    if pkt.length - len < tokenlen then none
    else some (len + tokenlen, p + ntokenlen + tokenlen, (pkt.drop (p + ntokenlen)).take tokenlen)

/-- The Length field at `p`. -/
def decodeLength (pkt : Bytes) (len p : Nat) : Option (Nat × Nat) :=
  let len := len + (getUvarintlen (pkt.getD p 0) - 1)
  if pkt.length < len then none else some (len, getUvarint (pkt.drop p))

/-- What follows the connection IDs. -/
def decodeLongTail (type : PktType) (pkt : Bytes) (len p : Nat) : Option (Nat × Bytes × Nat) :=
  match type with
  | .initial =>
      match decodeToken pkt len p with
      | none => none
      | some (len, p, token) => (decodeLength pkt len p).map fun r => (r.1, token, r.2)
  | .retry | .versionNegotiation => some (len, [], 0)
  | _ => (decodeLength pkt len p).map fun r => (r.1, [], r.2)

/-- `ngtcp2_pkt_decode_hd_long`: the length of the header up to the packet number, and the header.
Its only error is `NGTCP2_ERR_INVALID_ARGUMENT`. -/
def decodeHdLong (pkt : Bytes) : Option (Nat × PktHd) :=
  if pkt.length < 5 then none
  else if isLongForm pkt = false then none
  else
    let c := pkt.getD 0 0
    let version := getUintbe ((pkt.drop 1).take 4)
    match if version = 0 then some .versionNegotiation else pktGetTypeLong version c with
    | none => none
    | some type =>
        let len := minLongHdlen type
        if pkt.length < len then none
        else
          let dcil := (pkt.getD 5 0).toNat
          if 20 < dcil then none
          else if pkt.length < len + dcil then none
          else
            let scil := (pkt.getD (6 + dcil) 0).toNat
            if 20 < scil then none
            else if pkt.length < len + dcil + scil then none
            else
              match decodeLongTail type pkt (len + dcil + scil) (7 + dcil + scil) with
              | none => none
              | some (len, token, longlen) =>
                  -- A Version Negotiation packet is not in the long form, and has no fixed bit.
                  some (len, {
                    longForm := version ≠ 0
                    fixedBitClear := version ≠ 0 ∧ c &&& 0x40 = 0
                    type := type
                    version := version
                    dcid := (pkt.drop 6).take dcil
                    scid := (pkt.drop (7 + dcil)).take scil
                    token := token
                    len := longlen })

/-- `ngtcp2_pkt_decode_hd_short` -/
def decodeHdShort (pkt : Bytes) (dcidlen : Nat) : Option (Nat × PktHd) :=
  if pkt.length < 1 + dcidlen then none
  else if isLongForm pkt then none
  else
    some (1 + dcidlen, {
      fixedBitClear := pkt.getD 0 0 &&& 0x40 = 0
      type := .oneRtt
      dcid := (pkt.drop 1).take dcidlen })

theorem getUvarintlen_pos (b : UInt8) : 0 < getUvarintlen b :=
  Nat.two_pow_pos _

/-- The packets have their first `n` bytes in common. -/
structure SameTo (n : Nat) (pkt pkt' : Bytes) : Prop where
  le : n ≤ pkt.length
  le' : n ≤ pkt'.length
  eq : pkt'.take n = pkt.take n

namespace SameTo

variable {pkt pkt' : Bytes} {n : Nat}

theorem append (pkt rest : Bytes) : SameTo pkt.length pkt (pkt ++ rest) :=
  ⟨Nat.le_refl _, by rw [List.length_append]; omega, by simp⟩

theorem take {k : Nat} (hk : k ≤ pkt.length) : SameTo k pkt (pkt.take k) :=
  ⟨hk, by rw [List.length_take]; omega, by rw [List.take_take, Nat.min_self]⟩

theorem mono (h : SameTo n pkt pkt') {k : Nat} (hk : k ≤ n) : SameTo k pkt pkt' := by
  refine ⟨Nat.le_trans hk h.le, Nat.le_trans hk h.le', ?_⟩
  have heq := congrArg (List.take k) h.eq
  rwa [List.take_take, List.take_take, Nat.min_eq_left hk] at heq

theorem slice (h : SameTo n pkt pkt') {i m : Nat} (hi : i + m ≤ n) :
    (pkt'.drop i).take m = (pkt.drop i).take m := by
  rw [List.take_drop, List.take_drop, (h.mono hi).eq]

theorem getD (h : SameTo n pkt pkt') {i : Nat} (hi : i < n) : pkt'.getD i 0 = pkt.getD i 0 := by
  have heq := congrArg (fun bs : Bytes => bs[i]?) h.eq
  simp only [List.getElem?_take, hi, if_true] at heq
  simp only [List.getD_eq_getElem?_getD, heq]

theorem getUvarint (h : SameTo n pkt pkt') {i : Nat} (hi : i + getUvarintlen (pkt.getD i 0) ≤ n) :
    getUvarint (pkt'.drop i) = getUvarint (pkt.drop i) := by
  have hpos := getUvarintlen_pos (pkt.getD i 0)
  have hhead : ∀ bs : Bytes, (bs.drop i).getD 0 0 = bs.getD i 0 := by
    intro bs
    simp [List.getD_eq_getElem?_getD]
  simp only [Pkt.getUvarint, hhead, h.getD (show i < n by omega), h.slice hi]

theorem decodeToken (h : SameTo n pkt pkt') {p : Nat} {r : Nat × Nat × Bytes}
    (hr : decodeToken pkt (p + 2) p = some r) (hn : r.1 ≤ n) :
    Pkt.decodeToken pkt' (p + 2) p = some r ∧ r.1 = r.2.1 + 1 := by
  have hpos := getUvarintlen_pos (pkt.getD p 0)
  simp only [Pkt.decodeToken] at hr ⊢
  split at hr
  · cases hr
  rename_i hlen
  split at hr
  · cases hr
  rename_i htoken
  cases hr
  have hle' := h.le'
  simp only at hn
  rw [h.getD (by omega), h.getUvarint (by omega), if_neg (by omega), if_neg (by omega), h.slice (by omega)]
  exact ⟨rfl, by simp only; omega⟩

theorem decodeLength (h : SameTo n pkt pkt') {p : Nat} {r : Nat × Nat}
    (hr : decodeLength pkt (p + 1) p = some r) (hn : r.1 ≤ n) : Pkt.decodeLength pkt' (p + 1) p = some r := by
  have hpos := getUvarintlen_pos (pkt.getD p 0)
  simp only [Pkt.decodeLength] at hr ⊢
  split at hr
  · cases hr
  cases hr
  have hle' := h.le'
  simp only at hn
  rw [h.getD (by omega), h.getUvarint (by omega), if_neg (by omega)]

end SameTo

theorem decodeToken_bounds {pkt : Bytes} {p : Nat} {r : Nat × Nat × Bytes}
    (h : decodeToken pkt (p + 2) p = some r) : r.1 = r.2.1 + 1 ∧ p < r.2.1 ∧ r.1 ≤ pkt.length := by
  have hpos := getUvarintlen_pos (pkt.getD p 0)
  simp only [decodeToken] at h
  split at h
  · cases h
  split at h
  · cases h
  cases h
  exact ⟨by simp only; omega, by simp only; omega, by simp only; omega⟩

theorem decodeLength_bounds {pkt : Bytes} {p : Nat} {r : Nat × Nat} (h : decodeLength pkt (p + 1) p = some r) :
    p < r.1 ∧ r.1 ≤ pkt.length := by
  have hpos := getUvarintlen_pos (pkt.getD p 0)
  simp only [decodeLength] at h
  split at h
  · cases h
  cases h
  exact ⟨by simp only; omega, by simp only; omega⟩

/-- How the fields behind the connection IDs are decoded, and where they end. -/
theorem decodeLongTail_cases {type : PktType} {pkt : Bytes} {p : Nat} {r : Nat × Bytes × Nat}
    (h : decodeLongTail type pkt (minLongHdlen type + p) (7 + p) = some r) :
    (type = .initial ∧ ∃ t, decodeToken pkt (7 + p + 2) (7 + p) = some t ∧
        decodeLength pkt (t.2.1 + 1) t.2.1 = some (r.1, r.2.2) ∧ r.2.1 = t.2.2) ∨
      ((type = .retry ∨ type = .versionNegotiation) ∧ r = (7 + p, [], 0)) ∨
      (type ≠ .initial ∧ type ≠ .retry ∧ type ≠ .versionNegotiation ∧
        decodeLength pkt (7 + p + 1) (7 + p) = some (r.1, r.2.2) ∧ r.2.1 = []) := by
  have hmap : ∀ {t : Bytes} {len q : Nat}, (decodeLength pkt len q).map (fun r => (r.1, t, r.2)) = some r →
      decodeLength pkt len q = some (r.1, r.2.2) ∧ r.2.1 = t := by
    intro t len q hl
    cases hd : decodeLength pkt len q with
    | none =>
        rw [hd] at hl
        cases hl
    | some l =>
        rw [hd] at hl
        cases hl
        exact ⟨rfl, rfl⟩
  cases type with
  | initial =>
      simp only [decodeLongTail, minLongHdlen, show 1 + 9 - 1 + p = 7 + p + 2 by omega] at h
      cases ht : decodeToken pkt (7 + p + 2) (7 + p) with
      | none =>
          rw [ht] at h
          cases h
      | some t =>
          obtain ⟨len, q, token⟩ := t
          rw [ht] at h
          obtain ⟨hlen, -, -⟩ := decodeToken_bounds ht
          simp only at hlen h
          subst hlen
          exact Or.inl ⟨rfl, _, rfl, (hmap h).1, (hmap h).2⟩
  | versionNegotiation =>
      cases h
      exact Or.inr (Or.inl ⟨Or.inr rfl, rfl⟩)
  | retry =>
      cases h
      exact Or.inr (Or.inl ⟨Or.inl rfl, rfl⟩)
  | _ =>
      simp only [decodeLongTail, minLongHdlen, show 9 - 1 + p = 7 + p + 1 by omega] at h
      exact Or.inr (Or.inr ⟨by decide, by decide, by decide, (hmap h).1, (hmap h).2⟩)

theorem decodeLongTail_bounds {type : PktType} {pkt : Bytes} {p : Nat} {r : Nat × Bytes × Nat}
    (hp : 7 + p ≤ pkt.length) (h : decodeLongTail type pkt (minLongHdlen type + p) (7 + p) = some r) :
    7 + p ≤ r.1 ∧ r.1 ≤ pkt.length := by
  rcases decodeLongTail_cases h with ⟨-, t, ht, hl, -⟩ | ⟨-, rfl⟩ | ⟨-, -, -, hl, -⟩
  · have htoken := decodeToken_bounds ht
    have hlength := decodeLength_bounds hl
    simp only at hlength
    omega
  · exact ⟨Nat.le_refl _, hp⟩
  · have hlength := decodeLength_bounds hl
    simp only at hlength
    omega

theorem SameTo.decodeLongTail {pkt pkt' : Bytes} {n : Nat} (h : SameTo n pkt pkt') {type : PktType} {p : Nat}
    {r : Nat × Bytes × Nat} (hr : decodeLongTail type pkt (minLongHdlen type + p) (7 + p) = some r) (hn : r.1 ≤ n) :
    Pkt.decodeLongTail type pkt' (minLongHdlen type + p) (7 + p) = some r := by
  obtain ⟨len, token, longlen⟩ := r
  rcases decodeLongTail_cases hr with ⟨rfl, t, ht, hl, htoken⟩ | ⟨rfl | rfl, heq⟩ | ⟨hi, hretry, hvn, hl, htoken⟩
  · have hbounds := decodeLength_bounds hl
    have htb := decodeToken_bounds ht
    simp only at hbounds hn
    obtain ⟨htoken', -⟩ := h.decodeToken ht (by omega)
    have hlength' := h.decodeLength hl hn
    obtain ⟨tlen, q, token'⟩ := t
    simp only at htb hlength' htoken
    obtain ⟨rfl, -, -⟩ := htb
    subst htoken
    simp only [Pkt.decodeLongTail, minLongHdlen, show 1 + 9 - 1 + p = 7 + p + 2 by omega, htoken', hlength', Option.map_some]
  · cases heq
    rfl
  · cases heq
    rfl
  · have hlength' := h.decodeLength hl hn
    simp only at htoken
    subst htoken
    cases type with
    | initial => exact absurd rfl hi
    | retry => exact absurd rfl hretry
    | versionNegotiation => exact absurd rfl hvn
    | _ =>
        simp only [Pkt.decodeLongTail, minLongHdlen, show 9 - 1 + p = 7 + p + 1 by omega, hlength', Option.map_some]

/-- What a decoded header consists of, and the places it was read from. -/
structure DecodedLong (pkt : Bytes) (r : Nat × PktHd) (type : PktType) (dcil scil : Nat) : Prop where
  five : 5 ≤ pkt.length
  form : isLongForm pkt = true
  typeEq : (if getUintbe ((pkt.drop 1).take 4) = 0 then some .versionNegotiation
    else pktGetTypeLong (getUintbe ((pkt.drop 1).take 4)) (pkt.getD 0 0)) = some type
  dcilEq : (pkt.getD 5 0).toNat = dcil
  dcil_le : dcil ≤ 20
  scilEq : (pkt.getD (6 + dcil) 0).toNat = scil
  scil_le : scil ≤ 20
  min_le : minLongHdlen type + (dcil + scil) ≤ pkt.length
  tailEq : decodeLongTail type pkt (minLongHdlen type + (dcil + scil)) (7 + (dcil + scil)) =
    some (r.1, r.2.token, r.2.len)
  hdEq : r.2 = {
    longForm := getUintbe ((pkt.drop 1).take 4) ≠ 0
    fixedBitClear := getUintbe ((pkt.drop 1).take 4) ≠ 0 ∧ pkt.getD 0 0 &&& 0x40 = 0
    type := type
    version := getUintbe ((pkt.drop 1).take 4)
    dcid := (pkt.drop 6).take dcil
    scid := (pkt.drop (7 + dcil)).take scil
    token := r.2.token
    len := r.2.len }

theorem minLongHdlen_ge (type : PktType) : 7 ≤ minLongHdlen type := by
  cases type <;> decide

theorem decodeHdLong_iff {pkt : Bytes} {r : Nat × PktHd} :
    decodeHdLong pkt = some r ↔ ∃ type dcil scil, DecodedLong pkt r type dcil scil := by
  constructor
  · intro h
    simp only [decodeHdLong] at h
    split at h
    · cases h
    rename_i hfive
    split at h
    · cases h
    rename_i hform
    split at h
    · cases h
    rename_i type htype
    split at h
    · cases h
    split at h
    · cases h
    rename_i hd
    split at h
    · cases h
    split at h
    · cases h
    rename_i hs
    split at h
    · cases h
    rename_i hlen
    split at h
    · cases h
    rename_i len token longlen htail
    cases h
    rw [Nat.add_assoc, Nat.add_assoc 7] at htail
    exact ⟨type, _, _, by omega, by simpa using hform, htype, rfl, by omega, rfl, by omega, by omega, htail, rfl⟩
  · rintro ⟨type, dcil, scil, h⟩
    have hmin := h.min_le
    have hd := h.dcil_le
    have hs := h.scil_le
    have hfive := h.five
    simp only [decodeHdLong, h.typeEq, h.dcilEq, h.scilEq]
    rw [if_neg (by omega), h.form, if_neg (by simp), if_neg (by omega), if_neg (by omega), if_neg (by omega),
      if_neg (by omega), if_neg (by omega), Nat.add_assoc, Nat.add_assoc 7, h.tailEq]
    simp only [Option.some.injEq]
    exact Prod.ext rfl h.hdEq.symm

theorem DecodedLong.bounds {pkt : Bytes} {r : Nat × PktHd} {type : PktType} {dcil scil : Nat}
    (h : DecodedLong pkt r type dcil scil) : 7 + (dcil + scil) ≤ r.1 ∧ r.1 ≤ pkt.length := by
  have hmin := h.min_le
  have hseven := minLongHdlen_ge type
  exact decodeLongTail_bounds (by omega) h.tailEq

/-- A header is decoded from its own bytes alone. -/
theorem SameTo.decodeHdLong {pkt pkt' : Bytes} {n : Nat} (h : SameTo n pkt pkt') {r : Nat × PktHd}
    (hr : decodeHdLong pkt = some r) (hn : r.1 ≤ n) : Pkt.decodeHdLong pkt' = some r := by
  obtain ⟨type, dcil, scil, hd⟩ := decodeHdLong_iff.mp hr
  obtain ⟨hle, hle'⟩ := hd.bounds
  have hn' := h.le'
  have htail := h.decodeLongTail hd.tailEq hn
  have hversion := h.slice (show 1 + 4 ≤ n by omega)
  have hfirst := h.getD (show 0 < n by omega)
  refine decodeHdLong_iff.mpr ⟨type, dcil, scil, ?_⟩
  refine ⟨by omega, ?_, ?_, ?_, hd.dcil_le, ?_, hd.scil_le, ?_, htail, ?_⟩
  · rw [isLongForm, hfirst]
    exact hd.form
  · rw [hversion, hfirst]
    exact hd.typeEq
  · rw [h.getD (by omega)]
    exact hd.dcilEq
  · rw [h.getD (by omega)]
    exact hd.scilEq
  · -- The length of the fields is that of the header, or it is shorter by the varints.
    have htype := decodeLongTail_cases hd.tailEq
    rcases htype with ⟨rfl, t, ht, hl, -⟩ | ⟨htype, heq⟩ | ⟨hi, hretry, hvn, hl, -⟩
    · have htoken := decodeToken_bounds ht
      have hlength := decodeLength_bounds hl
      simp only [minLongHdlen] at hlength ⊢
      omega
    · rcases htype with rfl | rfl <;> simp only [minLongHdlen] <;> omega
    · have hlength := decodeLength_bounds hl
      have hmin : minLongHdlen type = 8 := by cases type <;> first | rfl | contradiction
      simp only at hlength
      omega
  · rw [hversion, hfirst, h.slice (by omega), h.slice (by omega)]
    exact hd.hdEq

theorem decodeHdLong_bounds {pkt : Bytes} {r : Nat × PktHd} (h : decodeHdLong pkt = some r) :
    7 ≤ r.1 ∧ r.1 ≤ pkt.length := by
  obtain ⟨type, dcil, scil, hd⟩ := decodeHdLong_iff.mp h
  have hbounds := hd.bounds
  omega

theorem decodeHdLong_longForm {pkt : Bytes} {r : Nat × PktHd} (h : decodeHdLong pkt = some r) :
    isLongForm pkt = true := by
  obtain ⟨_, _, _, hd⟩ := decodeHdLong_iff.mp h
  exact hd.form

end Zngtcp2.Pkt
