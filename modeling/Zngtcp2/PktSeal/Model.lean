import Zngtcp2.Lib.Memory
import Zngtcp2.PtrBuf

namespace Zngtcp2.PktSeal

open Lib.Memory

/-- What the functions return: 0, `NGTCP2_ERR_BUF_CONTRACT`, or -1 where the backend fails. -/
inductive Status
  | ok
  | bufContract
  | backend
  deriving DecidableEq, Repr

def roleInternal : Nat :=
  0

def roleRxPacket : Nat :=
  1

def roleTxPacket : Nat :=
  5

/-- `NGTCP2_HP_SAMPLELEN` -/
def hpSamplelen : Nat :=
  16

/-- `ngtcp2_crypto_vec` -/
structure CryptoVec where
  base : Nat
  len : Nat
  deriving DecidableEq, Repr

def total (vs : List CryptoVec) : Nat :=
  (vs.map CryptoVec.len).sum

/-- `ngtcp2_crypto_aead`, without its handle. -/
structure Aead where
  maxOverhead : Nat
  nonTemporal : Bool
  alignBits : Nat
  deriving DecidableEq, Repr

/-- The arguments of `protect_pkt`; of the handles it is kept whether they are there. -/
structure ProtectCall where
  pkt : PtrBuf
  payloadOffset : Nat
  plainv : List CryptoVec
  aead : Aead
  actx : Bool
  aad : PtrBuf
  nonce : PtrBuf
  hp : Bool
  hpCtx : Bool
  hpSampleOffset : Nat
  mask : Option PtrBuf
  deriving DecidableEq, Repr

/-- The arguments of `unprotect_pkt` -/
structure UnprotectCall where
  plain : PtrBuf
  pkt : PtrBuf
  payloadOffset : Nat
  ciphertextlen : Nat
  aead : Aead
  aad : PtrBuf
  nonce : PtrBuf
  deriving DecidableEq, Repr

/-- The length of the sealed payload. -/
def ProtectCall.sealedLen (c : ProtectCall) : Nat :=
  total c.plainv + c.aead.maxOverhead

/-- The bytes that the library behind a backend writes: the AEAD as much as it is assumed to, the header protection a
mask of the length of a sample. -/
structure Backend where
  encryptVS : Mem → ProtectCall → List Nat
  encrypt : Mem → ProtectCall → Option (List Nat)
  hpMask : Mem → Nat → Option (List Nat)
  supp : Mem → Nat → List Nat
  decrypt : Mem → UnprotectCall → Option (List Nat)
  length_encryptVS : ∀ m c, (encryptVS m c).length = c.sealedLen
  length_encrypt : ∀ {m c bytes}, encrypt m c = some bytes → bytes.length = c.sealedLen
  length_supp : ∀ m sample, (supp m sample).length = hpSamplelen

/-- What `protect_pkt` returns and leaves behind. -/
structure Protected where
  rv : Status
  mem : Mem
  pkt : PtrBuf
  mask : Option PtrBuf

/-- What `unprotect_pkt` returns and leaves behind. -/
structure Unprotected where
  rv : Status
  mem : Mem
  plain : PtrBuf

/-- `ngtcp2_buf_cap` -/
def cap (buf : PtrBuf) : Nat :=
  buf.endp - buf.beginp

/-- `zpicotls_validate_pkt_buf` -/
def zpicotlsValidatePktBuf (pkt : PtrBuf) (role payloadOffset len : Nat) : Status :=
  if pkt.validate role ≠ .ok then .bufContract
  else if payloadOffset > pkt.endp - pkt.pos ∨ len > pkt.endp - pkt.pos - payloadOffset then .bufContract
  else .ok

/-- `zpicotls_range_overlap` -/
def zpicotlsRangeOverlap (a alen b blen : Nat) : Prop :=
  alen ≠ 0 ∧ blen ≠ 0 ∧ a < (b + blen) % 2 ^ 64 ∧ b < (a + alen) % 2 ^ 64

instance (a alen b blen : Nat) : Decidable (zpicotlsRangeOverlap a alen b blen) :=
  inferInstanceAs (Decidable (_ ∧ _))

/-- The loop of `zpicotls_validate_plainv`, which returns the length of the plaintext. -/
def plainvLen (dst dstlen : Nat) : List CryptoVec → Nat → Option Nat
  | [], plaintextlen => some plaintextlen
  | v :: vs, plaintextlen =>
    if v.len ≠ 0 ∧ v.base = 0 then none
    else if uint64Max - plaintextlen < v.len then none
    else if zpicotlsRangeOverlap v.base v.len dst dstlen then none
    else plainvLen dst dstlen vs (plaintextlen + v.len)

/-- `zpicotls_validate_plainv` -/
def zpicotlsValidatePlainv (plainv : List CryptoVec) (dst dstlen : Nat) : Option Nat :=
  if plainv.length > 64 then none else plainvLen dst dstlen plainv 0

namespace ProtectCall

variable (c : ProtectCall)

/-- Nothing has been written. -/
def refuse (m : Mem) : Protected :=
  ⟨.bufContract, m, c.pkt, c.mask⟩

/-- The output must be aligned, and is not. -/
def misaligned : Prop :=
  c.aead.nonTemporal = true ∧ c.aead.alignBits ≠ 0 ∧
    (c.pkt.pos + c.payloadOffset) &&& (1 <<< c.aead.alignBits % 2 ^ 64 - 1) ≠ 0

instance : Decidable c.misaligned :=
  inferInstanceAs (Decidable (_ ∧ _))

/-- What both backends check of the mask buffer, with the end of the written packet. -/
def maskBad (mask : PtrBuf) (written : Nat) : Prop :=
  c.hp = false ∨ c.hpCtx = false ∨ mask.validate roleInternal ≠ .ok ∨ cap mask < hpSamplelen ∨
    c.hpSampleOffset > written ∨ hpSamplelen > written - c.hpSampleOffset

instance (mask : PtrBuf) (written : Nat) : Decidable (c.maskBad mask written) :=
  inferInstanceAs (Decidable (_ ∨ _))

end ProtectCall

/-- What `zpicotls_protect_pkt` does behind its checks. -/
def zpicotlsSeal (b : Backend) (m : Mem) (c : ProtectCall) : Protected :=
  let payload := c.pkt.pos + c.payloadOffset
  let bytes := b.encryptVS m c
  let outlen := bytes.length % 2 ^ 64
  let m := written m payload bytes
  let last := (payload + outlen) % 2 ^ 64
  let pkt := if c.pkt.last < last then { c.pkt with last := last } else c.pkt
  match c.mask with
  | none => ⟨.ok, m, pkt, none⟩
  | some mask =>
    let output := b.supp m (c.pkt.pos + c.hpSampleOffset)
    ⟨.ok, written m mask.pos output, pkt, some { mask with last := mask.pos + output.length }⟩

/-- `zpicotls_protect_pkt` -/
def zpicotlsProtectPkt (b : Backend) (m : Mem) (c : ProtectCall) : Protected :=
  if c.actx = false then c.refuse m
  else if zpicotlsValidatePktBuf c.pkt roleTxPacket c.payloadOffset 0 ≠ .ok then c.refuse m
  else
    let payload := c.pkt.pos + c.payloadOffset
    match zpicotlsValidatePlainv c.plainv payload (c.pkt.endp - payload) with
    | none => c.refuse m
    | some plaintextlen =>
      let left := sub64 (sub64 (c.pkt.endp - c.pkt.pos) c.payloadOffset) plaintextlen
      if c.aad.validate roleTxPacket ≠ .ok ∨ c.nonce.validate roleInternal ≠ .ok ∨ c.aead.maxOverhead > left then
        c.refuse m
      else if c.misaligned then c.refuse m
      else
        let sum := ((c.payloadOffset + plaintextlen) % 2 ^ 64 + c.aead.maxOverhead) % 2 ^ 64
        if ∃ mask ∈ c.mask, c.maskBad mask sum then c.refuse m else zpicotlsSeal b m c

/-- `shared_protect_pkt` -/
def sharedProtectPkt (b : Backend) (m : Mem) (c : ProtectCall) : Protected :=
  match c.plainv with
  | [v] =>
    let room := c.pkt.endp - c.pkt.pos
    if c.pkt.validate roleTxPacket ≠ .ok ∨ c.aad.validate roleTxPacket ≠ .ok ∨ c.nonce.validate roleInternal ≠ .ok ∨
        c.payloadOffset > room ∨ v.len > room - c.payloadOffset ∨ c.aead.maxOverhead > room - c.payloadOffset - v.len then
      c.refuse m
    else
      let payload := c.pkt.pos + c.payloadOffset
      match b.encrypt m c with
      | none => ⟨.backend, m, c.pkt, c.mask⟩
      | some bytes =>
        let m := written m payload bytes
        let pkt : PtrBuf := { c.pkt with last := payload + v.len + c.aead.maxOverhead }
        match c.mask with
        | none => ⟨.ok, m, pkt, none⟩
        | some mask =>
          if c.maskBad mask (pkt.last - pkt.pos) then ⟨.bufContract, m, pkt, some mask⟩
          else
            match b.hpMask m (pkt.pos + c.hpSampleOffset) with
            | none => ⟨.backend, m, pkt, some mask⟩
            | some output => ⟨.ok, written m mask.pos output, pkt, some { mask with last := mask.pos + hpSamplelen }⟩
  | _ => c.refuse m

/-- The checks of `zpicotls_unprotect_pkt` behind that of the packet. -/
def UnprotectCall.bad (c : UnprotectCall) : Prop :=
  c.ciphertextlen < c.aead.maxOverhead ∨ c.aad.validate roleRxPacket ≠ .ok ∨ c.nonce.validate roleInternal ≠ .ok ∨
    c.plain.validate c.plain.role ≠ .ok ∨ cap c.plain < c.ciphertextlen - c.aead.maxOverhead ∨
    zpicotlsRangeOverlap c.plain.pos (cap c.plain) (c.pkt.pos + c.payloadOffset) c.ciphertextlen

instance (c : UnprotectCall) : Decidable c.bad :=
  inferInstanceAs (Decidable (_ ∨ _))

/-- `zpicotls_unprotect_pkt` -/
def zpicotlsUnprotectPkt (b : Backend) (m : Mem) (c : UnprotectCall) : Unprotected :=
  if zpicotlsValidatePktBuf c.pkt roleRxPacket c.payloadOffset c.ciphertextlen ≠ .ok then ⟨.bufContract, m, c.plain⟩
  else if c.bad then ⟨.bufContract, m, c.plain⟩
  else
    match b.decrypt m c with
    | none => ⟨.backend, m, c.plain⟩
    | some bytes => ⟨.ok, written m c.plain.pos bytes, { c.plain with last := c.plain.pos + bytes.length }⟩

end Zngtcp2.PktSeal
