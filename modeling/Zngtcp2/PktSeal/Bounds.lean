import Zngtcp2.PktSeal.Model

namespace Zngtcp2.PktSeal

open Lib.Memory

/-- The values are words of 64 bits. -/
structure ProtectCall.Words (c : ProtectCall) : Prop where
  endp : c.pkt.endp < 2 ^ 64
  payloadOffset : c.payloadOffset < 2 ^ 64
  maxOverhead : c.aead.maxOverhead < 2 ^ 64

/-- There is room for the sealed payload. -/
def ProtectCall.Room (c : ProtectCall) : Prop :=
  c.pkt.pos + c.payloadOffset + c.sealedLen ≤ c.pkt.endp

/-- The mask, where one is asked for, has room behind its position. -/
def ProtectCall.MaskRoom (c : ProtectCall) : Prop :=
  ∀ mask ∈ c.mask, mask.pos + hpSamplelen ≤ mask.endp

/-- The sample, where a mask is asked for, lies in the first `len` bytes of the packet. -/
def ProtectCall.SampleIn (c : ProtectCall) (len : Nat) : Prop :=
  c.mask ≠ none → c.hpSampleOffset + hpSamplelen ≤ len

/-- Sealing stays inside of the packet and of the mask, and refuses a packet without room before it writes anything. -/
structure SealsInside (m : Mem) (c : ProtectCall) (r : Protected) : Prop where
  room : r.rv = .ok → c.Room
  sample : r.rv = .ok → c.SampleIn (c.payloadOffset + c.sealedLen)
  maskRoom : r.rv = .ok → c.MaskRoom
  last_ge : r.rv = .ok → c.pkt.pos + c.payloadOffset + c.sealedLen ≤ r.pkt.last
  last_le : r.rv = .ok → r.pkt.last ≤ c.pkt.endp
  refuses : ¬ c.Room → r = c.refuse m

/-- Opening reads inside of the packet, and writes inside of the buffer for the plaintext. -/
structure OpensInside (c : UnprotectCall) (r : Unprotected) : Prop where
  room : r.rv = .ok → c.pkt.pos + c.payloadOffset + c.ciphertextlen ≤ c.pkt.endp
  overhead : r.rv = .ok → c.aead.maxOverhead ≤ c.ciphertextlen
  plain : r.rv = .ok → c.plain.pos + (c.ciphertextlen - c.aead.maxOverhead) ≤ c.plain.endp

/-- What both backends check of the call without its lengths. -/
structure ProtectCall.Valid (c : ProtectCall) : Prop where
  pkt : c.pkt.validate roleTxPacket = .ok
  aad : c.aad.validate roleTxPacket = .ok
  nonce : c.nonce.validate roleInternal = .ok
  offset : c.payloadOffset ≤ c.pkt.endp - c.pkt.pos
  mask : ∀ mask ∈ c.mask, c.hp = true ∧ c.hpCtx = true ∧ mask.validate roleInternal = .ok ∧ hpSamplelen ≤ cap mask

/-- The checks of `zpicotls_protect_pkt` that have nothing to do with the room in the packet. -/
structure ProtectCall.Plausible (c : ProtectCall) : Prop where
  actx : c.actx = true
  valid : c.Valid
  plainv : zpicotlsValidatePlainv c.plainv (c.pkt.pos + c.payloadOffset)
    (c.pkt.endp - (c.pkt.pos + c.payloadOffset)) = some (total c.plainv)
  aligned : ¬ c.misaligned
  sample : c.SampleIn ((c.payloadOffset + c.sealedLen) % 2 ^ 64)

section

variable {b : Backend} {m : Mem} {c : ProtectCall}

theorem plainvLen_eq {dst dstlen : Nat} {vs : List CryptoVec} {len plaintextlen : Nat}
    (h : plainvLen dst dstlen vs len = some plaintextlen) (hlen : len ≤ uint64Max) :
    plaintextlen = len + total vs ∧ plaintextlen ≤ uint64Max := by
  induction vs generalizing len with
  | nil =>
      cases h
      exact ⟨rfl, hlen⟩
  | cons v vs ih =>
      rw [plainvLen] at h
      split at h
      · cases h
      split at h
      · cases h
      split at h
      · cases h
      obtain ⟨heq, hle⟩ := ih h (by omega)
      refine ⟨?_, hle⟩
      simp only [total, List.map_cons, List.sum_cons] at heq ⊢
      omega

theorem zpicotlsValidatePlainv_eq {vs : List CryptoVec} {dst dstlen plaintextlen : Nat}
    (h : zpicotlsValidatePlainv vs dst dstlen = some plaintextlen) :
    plaintextlen = total vs ∧ plaintextlen ≤ uint64Max := by
  rw [zpicotlsValidatePlainv] at h
  split at h
  · cases h
  obtain ⟨heq, hle⟩ := plainvLen_eq h (Nat.zero_le _)
  exact ⟨by omega, hle⟩

theorem zpicotlsValidatePktBuf_eq_ok {pkt : PtrBuf} {role payloadOffset len : Nat} :
    zpicotlsValidatePktBuf pkt role payloadOffset len = .ok ↔
      pkt.validate role = .ok ∧ pkt.pos + payloadOffset + len ≤ pkt.endp := by
  rw [zpicotlsValidatePktBuf]
  by_cases hvalid : pkt.validate role = .ok
  · have hrange := PtrBuf.not_badRange (PtrBuf.validate_eq_ok.mp hvalid).1
    rw [if_neg (not_not.mpr hvalid)]
    split
    · simp only [reduceCtorEq, false_iff, not_and]
      intro _
      omega
    · simp only [true_iff]
      exact ⟨hvalid, by omega⟩
  · simp [hvalid]

theorem not_maskBad {mask : PtrBuf} {len : Nat} :
    ¬ c.maskBad mask len ↔
      (c.hp = true ∧ c.hpCtx = true ∧ mask.validate roleInternal = .ok ∧ hpSamplelen ≤ cap mask) ∧
        c.hpSampleOffset + hpSamplelen ≤ len := by
  simp only [ProtectCall.maskBad, not_or, Bool.not_eq_false, not_not, hpSamplelen]
  constructor
  · rintro ⟨hhp, hctx, hvalid, hcap, hoffset, hlen⟩
    exact ⟨⟨hhp, hctx, hvalid, by omega⟩, by omega⟩
  · rintro ⟨⟨hhp, hctx, hvalid, hcap⟩, hlen⟩
    exact ⟨hhp, hctx, hvalid, by omega, by omega, by omega⟩

theorem exists_maskBad {len : Nat} :
    (¬ ∃ mask ∈ c.mask, c.maskBad mask len) ↔
      (∀ mask ∈ c.mask, c.hp = true ∧ c.hpCtx = true ∧ mask.validate roleInternal = .ok ∧ hpSamplelen ≤ cap mask) ∧
        c.SampleIn len := by
  cases hmask : c.mask with
  | none => simp [ProtectCall.SampleIn, hmask]
  | some mask => simp [ProtectCall.SampleIn, hmask, not_maskBad]

/-- What the packet has left behind the plaintext, as `zpicotls_protect_pkt` computes it. -/
def ProtectCall.left (c : ProtectCall) : Nat :=
  sub64 (sub64 (c.pkt.endp - c.pkt.pos) c.payloadOffset) (total c.plainv)

theorem ProtectCall.sum_eq (c : ProtectCall) :
    ((c.payloadOffset + total c.plainv) % 2 ^ 64 + c.aead.maxOverhead) % 2 ^ 64 = (c.payloadOffset + c.sealedLen) % 2 ^ 64 := by
  rw [sealedLen, Nat.mod_add_mod, Nat.add_assoc]

/-- The call is carried out where it is plausible and the overhead seems to fit. -/
theorem zpicotlsProtectPkt_seal (h : c.Plausible) (hleft : c.aead.maxOverhead ≤ c.left) :
    zpicotlsProtectPkt b m c = zpicotlsSeal b m c := by
  have hrange := PtrBuf.not_badRange (PtrBuf.validate_eq_ok.mp h.valid.pkt).1
  have hoffset := h.valid.offset
  have hbuf : zpicotlsValidatePktBuf c.pkt roleTxPacket c.payloadOffset 0 = .ok :=
    zpicotlsValidatePktBuf_eq_ok.mpr ⟨h.valid.pkt, by omega⟩
  have hmask := exists_maskBad.mpr ⟨h.valid.mask, h.sample⟩
  rw [zpicotlsProtectPkt, if_neg (by simp [h.actx]), if_neg (not_not.mpr hbuf)]
  simp only [h.plainv, ProtectCall.sum_eq]
  rw [ProtectCall.left] at hleft
  rw [if_neg (by simp [h.valid.aad, h.valid.nonce, hleft]), if_neg h.aligned, if_neg hmask]

theorem zpicotlsProtectPkt_refuse (h : ¬ (c.Plausible ∧ c.aead.maxOverhead ≤ c.left)) :
    zpicotlsProtectPkt b m c = c.refuse m := by
  rw [zpicotlsProtectPkt]
  split
  · rfl
  next hactx =>
    split
    · rfl
    next hbuf =>
      obtain ⟨hvalid, hroom⟩ := zpicotlsValidatePktBuf_eq_ok.mp (not_not.mp hbuf)
      cases hplain : zpicotlsValidatePlainv c.plainv (c.pkt.pos + c.payloadOffset)
          (c.pkt.endp - (c.pkt.pos + c.payloadOffset)) with
      | none => simp only [hplain]
      | some plaintextlen =>
          obtain ⟨rfl, -⟩ := zpicotlsValidatePlainv_eq hplain
          simp only [hplain, ProtectCall.sum_eq]
          split
          · rfl
          next hfit =>
            split
            · rfl
            next haligned =>
              split
              · rfl
              next hmask =>
                simp only [not_or, not_not, Nat.not_lt] at hfit
                obtain ⟨hmasks, hsample⟩ := exists_maskBad.mp hmask
                have hcall : c.Plausible :=
                  ⟨Bool.eq_true_of_not_eq_false hactx, ⟨hvalid, hfit.1, hfit.2.1, by omega, hmasks⟩, hplain, haligned, hsample⟩
                exact absurd ⟨hcall, hfit.2.2⟩ h

/-- The difference wraps around where the plaintext is longer than what the packet has for it. -/
theorem ProtectCall.left_eq (hwords : c.Words) (h : c.Plausible) :
    c.left = if c.pkt.pos + c.payloadOffset + total c.plainv ≤ c.pkt.endp then
        c.pkt.endp - (c.pkt.pos + c.payloadOffset + total c.plainv)
      else c.pkt.endp + 2 ^ 64 - (c.pkt.pos + c.payloadOffset + total c.plainv) := by
  have hrange := PtrBuf.not_badRange (PtrBuf.validate_eq_ok.mp h.valid.pkt).1
  have hoffset := h.valid.offset
  have hend := hwords.endp
  have htotal := (zpicotlsValidatePlainv_eq h.plainv).2
  simp only [uint64Max] at htotal
  rw [left, sub64_of_le hoffset (by omega), sub64]
  split
  · omega
  · omega

theorem zpicotlsSeal_rv : (zpicotlsSeal b m c).rv = .ok := by
  rw [zpicotlsSeal]
  cases c.mask <;> rfl

theorem zpicotlsSeal_last (hwords : c.Words) (hroom : c.Room) (hlast : c.pkt.last ≤ c.pkt.endp) :
    c.pkt.pos + c.payloadOffset + c.sealedLen ≤ (zpicotlsSeal b m c).pkt.last ∧
      (zpicotlsSeal b m c).pkt.last ≤ c.pkt.endp := by
  have hend := hwords.endp
  rw [ProtectCall.Room] at hroom
  have hlen : (b.encryptVS m c).length % 2 ^ 64 = c.sealedLen := by
    rw [b.length_encryptVS]
    exact Nat.mod_eq_of_lt (by omega)
  have hmod : (c.pkt.pos + c.payloadOffset + c.sealedLen) % 2 ^ 64 = c.pkt.pos + c.payloadOffset + c.sealedLen :=
    Nat.mod_eq_of_lt (by omega)
  have hpkt : (zpicotlsSeal b m c).pkt =
      if c.pkt.last < c.pkt.pos + c.payloadOffset + c.sealedLen then
        { c.pkt with last := c.pkt.pos + c.payloadOffset + c.sealedLen }
      else c.pkt := by
    rw [zpicotlsSeal]
    simp only [hlen, hmod]
    cases c.mask <;> rfl
  rw [hpkt]
  split
  · exact ⟨Nat.le_refl _, hroom⟩
  next hge => exact ⟨Nat.not_lt.mp hge, hlast⟩

theorem SealsInside.of_refuse (m : Mem) (c : ProtectCall) : SealsInside m c (c.refuse m) := by
  constructor <;> intro h <;> first | rfl | cases h

/-- The plaintext is not longer than the packet, unless the overhead is so large that the difference that has wrapped
around is still too small for it, and a mask for which the packet has room has room of its own. -/
def ProtectCall.Dominated (c : ProtectCall) : Prop :=
  (c.pkt.endp < c.pkt.pos + c.payloadOffset + total c.plainv → c.pkt.endp + 2 ^ 64 < c.pkt.pos + c.payloadOffset + c.sealedLen) ∧
    (c.Room → c.MaskRoom)

theorem zpicotlsProtectPkt_inside (hwords : c.Words) :
    SealsInside m c (zpicotlsProtectPkt b m c) ↔ (c.Plausible → c.Dominated) := by
  have hend := hwords.endp
  constructor
  · intro h hcall
    have hleft := ProtectCall.left_eq hwords hcall
    have hseal : c.aead.maxOverhead ≤ c.left → c.Room ∧ c.MaskRoom := by
      intro hle
      have hrv : (zpicotlsProtectPkt b m c).rv = .ok := by
        rw [zpicotlsProtectPkt_seal hcall hle]
        exact zpicotlsSeal_rv
      exact ⟨h.room hrv, h.maskRoom hrv⟩
    simp only [ProtectCall.Room, ProtectCall.sealedLen] at hseal
    simp only [ProtectCall.Dominated, ProtectCall.Room, ProtectCall.sealedLen]
    constructor
    · intro hlong
      by_contra hwrap
      rw [if_neg (Nat.not_le.mpr hlong)] at hleft
      have hroom := (hseal (by omega)).1
      omega
    · intro hroom
      rw [if_pos (by omega)] at hleft
      exact (hseal (by omega)).2
  · intro h
    by_cases hseal : c.Plausible ∧ c.aead.maxOverhead ≤ c.left
    · obtain ⟨hcall, hle⟩ := hseal
      obtain ⟨hlong, hmask⟩ := h hcall
      have hrange := PtrBuf.not_badRange (PtrBuf.validate_eq_ok.mp hcall.valid.pkt).1
      have hoffset := hcall.valid.offset
      have htotal := (zpicotlsValidatePlainv_eq hcall.plainv).2
      simp only [uint64Max] at htotal
      have hroom : c.Room := by
        rw [ProtectCall.left_eq hwords hcall] at hle
        simp only [ProtectCall.Room, ProtectCall.sealedLen] at hlong ⊢
        split at hle
        · omega
        · have hwrap := hlong (by omega)
          omega
      have hsample := hcall.sample
      rw [Nat.mod_eq_of_lt (by rw [ProtectCall.Room] at hroom; omega)] at hsample
      rw [zpicotlsProtectPkt_seal hcall hle]
      obtain ⟨hge, hle'⟩ := zpicotlsSeal_last (b := b) (m := m) hwords hroom hrange.2.2.2
      exact ⟨fun _ => hroom, fun _ => hsample, fun _ => hmask hroom, fun _ => hge, fun _ => hle',
        fun hno => absurd hroom hno⟩
    · rw [zpicotlsProtectPkt_refuse hseal]
      exact SealsInside.of_refuse m c

/-- The checks of `shared_protect_pkt`, with the backend's part of it; the room in the packet is among them. -/
structure ProtectCall.SharedPlausible (c : ProtectCall) (b : Backend) (m : Mem) : Prop where
  valid : c.Valid
  one : ∃ v, c.plainv = [v]
  room : c.Room
  sample : c.SampleIn (c.payloadOffset + c.sealedLen)
  encrypts : ∃ bytes, b.encrypt m c = some bytes ∧
    (c.mask ≠ none →
      ∃ output, b.hpMask (written m (c.pkt.pos + c.payloadOffset) bytes) (c.pkt.pos + c.hpSampleOffset) = some output)

theorem total_singleton (v : CryptoVec) : total [v] = v.len := by
  simp [total]

/-- The checks of the lengths in `shared_protect_pkt` leave room for the sealed payload. -/
theorem shared_room {v : CryptoVec} (hone : c.plainv = [v]) (hpos : c.pkt.pos ≤ c.pkt.endp) :
    (¬ (c.payloadOffset > c.pkt.endp - c.pkt.pos ∨ v.len > c.pkt.endp - c.pkt.pos - c.payloadOffset ∨
        c.aead.maxOverhead > c.pkt.endp - c.pkt.pos - c.payloadOffset - v.len)) ↔ c.Room := by
  simp only [ProtectCall.Room, ProtectCall.sealedLen, hone, total_singleton]
  omega

theorem SealsInside.of_fails {r : Protected} (hroom : c.Room) (hrv : r.rv ≠ .ok) : SealsInside m c r :=
  ⟨fun h => absurd h hrv, fun h => absurd h hrv, fun h => absurd h hrv, fun h => absurd h hrv, fun h => absurd h hrv,
    fun h => absurd hroom h⟩

/-- What `shared_protect_pkt` checks before it writes. -/
theorem shared_checks {v : CryptoVec} (hone : c.plainv = [v]) :
    (¬ (c.pkt.validate roleTxPacket ≠ .ok ∨ c.aad.validate roleTxPacket ≠ .ok ∨ c.nonce.validate roleInternal ≠ .ok ∨
      c.payloadOffset > c.pkt.endp - c.pkt.pos ∨ v.len > c.pkt.endp - c.pkt.pos - c.payloadOffset ∨
        c.aead.maxOverhead > c.pkt.endp - c.pkt.pos - c.payloadOffset - v.len)) ↔
      c.pkt.validate roleTxPacket = .ok ∧ c.aad.validate roleTxPacket = .ok ∧ c.nonce.validate roleInternal = .ok ∧
        c.payloadOffset ≤ c.pkt.endp - c.pkt.pos ∧ c.Room := by
  by_cases hvalid : c.pkt.validate roleTxPacket = .ok
  · have hrange := PtrBuf.not_badRange (PtrBuf.validate_eq_ok.mp hvalid).1
    have hiff := shared_room hone (by omega)
    constructor
    · intro h
      simp only [not_or, not_not] at h
      obtain ⟨-, haad, hnonce, hlens⟩ := h
      exact ⟨hvalid, haad, hnonce, by omega, hiff.mp (by simp only [not_or]; exact hlens)⟩
    · rintro ⟨-, haad, hnonce, -, hroom⟩
      have hlens := hiff.mpr hroom
      simp only [not_or, not_not] at hlens ⊢
      exact ⟨hvalid, haad, hnonce, hlens⟩
  · simp [hvalid]

theorem sharedProtectPkt_ok (h : c.SharedPlausible b m) :
    (sharedProtectPkt b m c).rv = .ok ∧
      (sharedProtectPkt b m c).pkt.last = c.pkt.pos + c.payloadOffset + c.sealedLen := by
  obtain ⟨v, hone⟩ := h.one
  obtain ⟨bytes, hbytes, houtput⟩ := h.encrypts
  have hlen : c.sealedLen = v.len + c.aead.maxOverhead := by rw [ProtectCall.sealedLen, hone, total_singleton]
  have hchecks := (shared_checks hone).mpr ⟨h.valid.pkt, h.valid.aad, h.valid.nonce, h.valid.offset, h.room⟩
  have hlast : c.pkt.pos + c.payloadOffset + v.len + c.aead.maxOverhead - c.pkt.pos = c.payloadOffset + c.sealedLen := by
    omega
  rw [sharedProtectPkt]
  simp only [hone]
  rw [if_neg hchecks]
  cases hmask : c.mask with
  | none =>
      simp only [hbytes, hlen]
      exact ⟨trivial, by omega⟩
  | some mask =>
      have hsome : c.mask ≠ none := by simp [hmask]
      obtain ⟨output, houtput⟩ := houtput hsome
      have hgood := not_maskBad.mpr ⟨h.valid.mask mask hmask, h.sample hsome⟩
      simp only [hbytes, hlast]
      rw [if_neg hgood]
      simp only [houtput, hlen]
      exact ⟨trivial, by omega⟩

theorem sharedProtectPkt_fails (h : ¬ c.SharedPlausible b m) : SealsInside m c (sharedProtectPkt b m c) := by
  rw [sharedProtectPkt]
  split
  next v hone =>
    have hlast : c.pkt.pos + c.payloadOffset + v.len + c.aead.maxOverhead - c.pkt.pos = c.payloadOffset + c.sealedLen := by
      rw [ProtectCall.sealedLen, hone, total_singleton]
      omega
    dsimp only
    split
    · exact SealsInside.of_refuse m c
    next hchecks =>
      obtain ⟨hpkt, haad, hnonce, hoffset, hroom⟩ := (shared_checks hone).mp hchecks
      cases hbytes : b.encrypt m c with
      | none => exact SealsInside.of_fails hroom (by simp)
      | some bytes =>
          cases hmask : c.mask with
          | none =>
              have hno : ∀ {p : PtrBuf → Prop}, ∀ mask ∈ c.mask, p mask := by simp [hmask]
              have hvalid : c.Valid := ⟨hpkt, haad, hnonce, hoffset, hno⟩
              exact absurd ⟨hvalid, ⟨v, hone⟩, hroom, fun hsome => absurd hmask hsome, bytes, hbytes, fun hsome => absurd hmask hsome⟩ h
          | some mask =>
              simp only [hlast]
              split
              · exact SealsInside.of_fails hroom (by simp)
              next hgood =>
                obtain ⟨hmasks, hsample⟩ := not_maskBad.mp hgood
                cases houtput : b.hpMask (written m (c.pkt.pos + c.payloadOffset) bytes) (c.pkt.pos + c.hpSampleOffset) with
                | none => exact SealsInside.of_fails hroom (by simp)
                | some output =>
                    have hvalid : c.Valid := ⟨hpkt, haad, hnonce, hoffset, fun mask' hmem => by
                      rw [hmask] at hmem
                      cases hmem
                      exact hmasks⟩
                    exact absurd ⟨hvalid, ⟨v, hone⟩, hroom, fun _ => hsample, bytes, hbytes, fun _ => ⟨output, houtput⟩⟩ h
  · exact SealsInside.of_refuse m c

theorem sharedProtectPkt_inside :
    SealsInside m c (sharedProtectPkt b m c) ↔ (c.SharedPlausible b m → c.MaskRoom) := by
  constructor
  · intro h hcall
    exact h.maskRoom (sharedProtectPkt_ok hcall).1
  · intro h
    by_cases hcall : c.SharedPlausible b m
    · obtain ⟨-, hlast⟩ := sharedProtectPkt_ok hcall
      have hmask := h hcall
      refine ⟨fun _ => hcall.room, fun _ => hcall.sample, fun _ => hmask, fun _ => ?_, fun _ => ?_,
        fun hno => absurd hcall.room hno⟩
      · rw [hlast]
      · rw [hlast]
        exact hcall.room
    · exact sharedProtectPkt_fails hcall

end

section Unprotect

variable {b : Backend} {m : Mem} {c : UnprotectCall}

/-- The checks of `zpicotls_unprotect_pkt` are passed, and the packet is authentic. -/
def UnprotectCall.Opens (c : UnprotectCall) (b : Backend) (m : Mem) : Prop :=
  zpicotlsValidatePktBuf c.pkt roleRxPacket c.payloadOffset c.ciphertextlen = .ok ∧ ¬ c.bad ∧ b.decrypt m c ≠ none

/-- Where the position of the buffer for the plaintext is its beginning, its capacity is what stands behind it. -/
theorem plain_room (h : ¬ c.bad) (hpos : c.plain.pos = c.plain.beginp) :
    c.plain.pos + (c.ciphertextlen - c.aead.maxOverhead) ≤ c.plain.endp := by
  simp only [UnprotectCall.bad, not_or, not_not, cap] at h
  have hrange := PtrBuf.not_badRange (PtrBuf.validate_eq_ok.mp h.2.2.2.1).1
  omega

theorem zpicotlsUnprotectPkt_inside :
    OpensInside c (zpicotlsUnprotectPkt b m c) ↔
      (c.Opens b m → c.plain.pos + (c.ciphertextlen - c.aead.maxOverhead) ≤ c.plain.endp) := by
  rw [zpicotlsUnprotectPkt]
  by_cases hbuf : zpicotlsValidatePktBuf c.pkt roleRxPacket c.payloadOffset c.ciphertextlen = .ok
  · rw [if_neg (not_not.mpr hbuf)]
    by_cases hbad : c.bad
    · rw [if_pos hbad]
      exact iff_of_true ⟨nofun, nofun, nofun⟩ fun h => absurd hbad h.2.1
    · rw [if_neg hbad]
      cases hdecrypt : b.decrypt m c with
      | none => exact iff_of_true ⟨nofun, nofun, nofun⟩ fun h => absurd hdecrypt h.2.2
      | some bytes =>
          have hroom := (zpicotlsValidatePktBuf_eq_ok.mp hbuf).2
          have hoverhead : c.aead.maxOverhead ≤ c.ciphertextlen := by
            simp only [UnprotectCall.bad, not_or] at hbad
            omega
          have hopens : c.Opens b m := ⟨hbuf, hbad, by simp [hdecrypt]⟩
          constructor
          · intro h _
            exact h.plain rfl
          · intro h
            exact ⟨fun _ => hroom, fun _ => hoverhead, fun _ => h hopens⟩
  · rw [if_pos hbuf]
    exact iff_of_true ⟨nofun, nofun, nofun⟩ fun h => absurd h.1 hbuf

end Unprotect

/-- Sealing and opening stay inside of the buffers exactly where no length wraps around in `zpicotls_protect_pkt` and
where a buffer that is written behind its position has room there, not only behind its beginning. -/
theorem pkt_seal_inside (b : Backend) (m : Mem) {c : ProtectCall} (hwords : c.Words) (u : UnprotectCall) :
    (SealsInside m c (zpicotlsProtectPkt b m c) ↔ (c.Plausible → c.Dominated)) ∧
    (SealsInside m c (sharedProtectPkt b m c) ↔ (c.SharedPlausible b m → c.MaskRoom)) ∧
    (OpensInside u (zpicotlsUnprotectPkt b m u) ↔
      (u.Opens b m → u.plain.pos + (u.ciphertextlen - u.aead.maxOverhead) ≤ u.plain.endp)) :=
  ⟨zpicotlsProtectPkt_inside hwords, sharedProtectPkt_inside, zpicotlsUnprotectPkt_inside⟩

/-- A backend that writes zeros, and never fails. -/
def zeros : Backend where
  encryptVS := fun _ c => List.replicate c.sealedLen 0
  encrypt := fun _ c => some (List.replicate c.sealedLen 0)
  hpMask := fun _ _ => some (List.replicate hpSamplelen 0)
  supp := fun _ _ => List.replicate hpSamplelen 0
  decrypt := fun _ u => some (List.replicate (u.ciphertextlen - u.aead.maxOverhead) 0)
  length_encryptVS := fun _ _ => List.length_replicate
  length_encrypt := by
    intro _ _ _ h
    cases h
    exact List.length_replicate
  length_supp := fun _ _ => List.length_replicate

/-- A buffer of the library of `len` bytes. -/
def bufAt (addr len role : Nat) : PtrBuf :=
  .init addr len 0 role 0 false false

/-- A plaintext of two hundred bytes for a packet of a hundred bytes. -/
def oversized : ProtectCall where
  pkt := bufAt 1000 100 roleTxPacket
  payloadOffset := 20
  plainv := [⟨5000, 200⟩]
  aead := ⟨16, false, 0⟩
  actx := true
  aad := bufAt 1000 20 roleTxPacket
  nonce := bufAt 3000 12 roleInternal
  hp := false
  hpCtx := false
  hpSampleOffset := 0
  mask := none

/-- The ciphertext that belongs to an empty plaintext. -/
def emptyCiphertext : UnprotectCall where
  plain := bufAt 8000 64 roleInternal
  pkt := bufAt 1000 100 roleRxPacket
  payloadOffset := 20
  ciphertextlen := 16
  aead := ⟨16, false, 0⟩
  aad := bufAt 1000 20 roleRxPacket
  nonce := bufAt 3000 12 roleInternal

theorem pkt_seal_outside : ¬ SealsInside (fun _ => 0) oversized (zpicotlsProtectPkt zeros (fun _ => 0) oversized) := by
  intro h
  have hrv : (zpicotlsProtectPkt zeros (fun _ => 0) oversized).rv = .ok := by decide +kernel
  have hroom := h.room hrv
  rw [ProtectCall.Room] at hroom
  revert hroom
  decide

theorem pkt_seal_inside_oversized :
    (SealsInside (fun _ => 0) oversized (zpicotlsProtectPkt zeros (fun _ => 0) oversized) ↔
      (oversized.Plausible → oversized.Dominated)) ∧
    (SealsInside (fun _ => 0) oversized (sharedProtectPkt zeros (fun _ => 0) oversized) ↔
      (oversized.SharedPlausible zeros (fun _ => 0) → oversized.MaskRoom)) ∧
    (OpensInside emptyCiphertext (zpicotlsUnprotectPkt zeros (fun _ => 0) emptyCiphertext) ↔
      (emptyCiphertext.Opens zeros (fun _ => 0) →
        emptyCiphertext.plain.pos + (emptyCiphertext.ciphertextlen - emptyCiphertext.aead.maxOverhead) ≤
          emptyCiphertext.plain.endp)) :=
  pkt_seal_inside zeros (fun _ => 0) ⟨by decide, by decide, by decide⟩ emptyCiphertext

end Zngtcp2.PktSeal
