import Zngtcp2.Buf
import Zngtcp2.Pkt.Frame

namespace Zngtcp2.Pkt

/-- One entry of the table from which the packet is protected. -/
structure PlainV where
  bytes : Bytes
  control : Bool

/-- The packet encoder. `cap` is the room of the packet buffer, `plain` the plaintext storage, of
which the first `plainvOffset` bytes are in the table `plainv`. -/
structure Ppe where
  cap : Nat
  maxOverhead : Nat
  hdlen : Nat := 0
  payloadlen : Nat := 0
  plain : Bytes := []
  plainvOffset : Nat := 0
  plainv : List PlainV := []

namespace Ppe

def maxPlainv : Nat := 64

def maxTxUdpPayloadSize : Nat := 65527

def hpSamplelen : Nat := 16

/-- `hdlen` and `pktNumOffset` are the length of the encoded header and the place of the packet
number in it. -/
def encodeHd (ppe : Ppe) (hdlen pktNumOffset : Nat) : Rv × Ppe :=
  if ppe.cap ≤ ppe.maxOverhead then (.nobuf, ppe)
  else if ppe.cap - ppe.maxOverhead < hdlen then (.nobuf, ppe)
  else if ppe.cap < pktNumOffset + 4 + hpSamplelen then (.nobuf, ppe)
  else (.ok, { ppe with hdlen := hdlen })

def packetPlainLeft (ppe : Ppe) : Nat :=
  if ppe.hdlen > ppe.cap then 0
  else if ppe.cap - ppe.hdlen ≤ ppe.maxOverhead then 0
  else if ppe.cap - ppe.hdlen - ppe.maxOverhead ≤ ppe.payloadlen then 0
  else ppe.cap - ppe.hdlen - ppe.maxOverhead - ppe.payloadlen

def left (ppe : Ppe) : Nat :=
  ppe.packetPlainLeft

/-- What is left of the plaintext storage. -/
def plainLeft (ppe : Ppe) : Nat :=
  maxTxUdpPayloadSize - ppe.plain.length

def addPlainv (ppe : Ppe) (v : PlainV) : Rv × Ppe :=
  if v.bytes.length = 0 then (.ok, ppe)
  else if ppe.plainv.length = maxPlainv then (.bufContract, ppe)
  else (.ok, { ppe with plainv := ppe.plainv ++ [v] })

def flushControl (ppe : Ppe) : Rv × Ppe :=
  match ppe.addPlainv ⟨ppe.plain.drop ppe.plainvOffset, true⟩ with
  | (.ok, ppe') => (.ok, { ppe' with plainvOffset := ppe.plain.length })
  | r => r

/-- The two branches of `ngtcp2_ppe_encode_frame` for a frame with a retained buffer: the header
goes to the plaintext storage, the data only to the table. -/
def encodeRetained (ppe : Ppe) (bufLeft : Nat) (hd data : Bytes) : Rv × Ppe :=
  if ppe.packetPlainLeft < data.length then (.nobuf, ppe)
  else if bufLeft < hd.length then (.nobuf, ppe)
  else if ppe.packetPlainLeft - data.length < hd.length then (.nobuf, ppe)
  else
    let ppe := { ppe with plain := ppe.plain ++ hd, payloadlen := ppe.payloadlen + (hd.length + data.length) }
    match ppe.flushControl with
    | (.ok, ppe) => ppe.addPlainv ⟨data, false⟩
    | r => r

def encodeCopied (ppe : Ppe) (bufLeft : Nat) (bytes : Bytes) : Rv × Ppe :=
  if bufLeft < bytes.length then (.nobuf, ppe)
  else (.ok, { ppe with plain := ppe.plain ++ bytes, payloadlen := ppe.payloadlen + bytes.length })

def encodeFrame (ppe : Ppe) (fr : Frame) : Rv × Ppe :=
  let bufLeft := min ppe.plainLeft ppe.packetPlainLeft
  if bufLeft = 0 then (.nobuf, ppe)
  else
    match fr with
    | .stream ⟨fin, streamId, offset, data, some buf⟩ =>
        ppe.encodeRetained bufLeft (streamHd ⟨fin, streamId, offset, data, some buf⟩ buf.len) buf.bytes
    | .datagramLen ⟨_, some buf⟩ => ppe.encodeRetained bufLeft (datagramHd buf.len) buf.bytes
    | fr => ppe.encodeCopied bufLeft (Pkt.encodeFrame fr)

/-- The encoder states in which frames are written: the header is there, and any frames have been
tried before. -/
inductive Reachable : Ppe → Prop
  | start {cap maxOverhead hdlen pktNumOffset : Nat} {ppe : Ppe}
      (h : encodeHd { cap := cap, maxOverhead := maxOverhead } hdlen pktNumOffset = (.ok, ppe)) : Reachable ppe
  | frame {ppe : Ppe} (h : Reachable ppe) (fr : Frame) : Reachable (ppe.encodeFrame fr).2

structure Inv (ppe : Ppe) : Prop where
  plain_le : ppe.plain.length ≤ ppe.payloadlen
  offset_le : ppe.plainvOffset ≤ ppe.plain.length
  plainv_le : ppe.plainv.length ≤ maxPlainv
  payload_le : ppe.payloadlen ≤ ppe.cap - ppe.hdlen - ppe.maxOverhead

theorem addPlainv_cases (ppe : Ppe) (v : PlainV) :
    (ppe.addPlainv v = (.ok, ppe) ∧ v.bytes.length = 0) ∨
      (ppe.addPlainv v = (.bufContract, ppe) ∧ 0 < v.bytes.length ∧ ppe.plainv.length = maxPlainv) ∨
      (ppe.addPlainv v = (.ok, { ppe with plainv := ppe.plainv ++ [v] }) ∧ 0 < v.bytes.length ∧
        ppe.plainv.length ≠ maxPlainv) := by
  rw [addPlainv]
  split
  · rename_i h
    exact Or.inl ⟨rfl, h⟩
  · rename_i h
    split
    · rename_i hfull
      exact Or.inr (Or.inl ⟨rfl, by omega, hfull⟩)
    · rename_i hroom
      exact Or.inr (Or.inr ⟨rfl, by omega, hroom⟩)

theorem encodeFrame_eq (ppe : Ppe) (fr : Frame) :
    ppe.encodeFrame fr =
      if min ppe.plainLeft ppe.packetPlainLeft = 0 then (.nobuf, ppe)
      else
        match fr.zeroCopy with
        | some buf => ppe.encodeRetained (min ppe.plainLeft ppe.packetPlainLeft) fr.control buf.bytes
        | none => ppe.encodeCopied (min ppe.plainLeft ppe.packetPlainLeft) fr.control := by
  cases fr with
  | stream fr =>
      obtain ⟨fin, streamId, offset, data, _ | buf⟩ := fr
      · rfl
      · rfl
  | datagramLen fr =>
      obtain ⟨data, _ | buf⟩ := fr
      · rfl
      · rfl
  | _ => rfl

/-- The table entries that are needed for a retained buffer: one for the control bytes up to its
header, one for its data. -/
def slots (data : Bytes) : Nat :=
  if data.length = 0 then 1 else 2

theorem encodeRetained_fits {ppe : Ppe} (h : Inv ppe) {bufLeft : Nat} {hd data : Bytes} (hhd : 0 < hd.length)
    (hfit : hd.length + data.length ≤ ppe.packetPlainLeft) (hbuf : hd.length ≤ bufLeft) :
    (ppe.encodeRetained bufLeft hd data).1 = .ok ↔ ppe.plainv.length + slots data ≤ maxPlainv := by
  have hle := h.plainv_le
  have hoff := h.offset_le
  rw [encodeRetained, if_neg (by omega), if_neg (by omega), if_neg (by omega)]
  simp only [flushControl]
  set ppe₁ : Ppe := { ppe with
    plain := ppe.plain ++ hd, payloadlen := ppe.payloadlen + (hd.length + data.length) } with hppe₁
  have hlen : (ppe₁.plain.drop ppe₁.plainvOffset).length = ppe.plain.length + hd.length - ppe.plainvOffset := by
    simp [hppe₁]
  rcases addPlainv_cases ppe₁ ⟨ppe₁.plain.drop ppe₁.plainvOffset, true⟩ with ⟨-, hz⟩ | ⟨heq, -, hfull⟩ | ⟨heq, -, hroom⟩
  · simp only [hlen] at hz
    omega
  · have hfull' : ppe.plainv.length = maxPlainv := hfull
    rw [heq]
    refine iff_of_false (by simp) ?_
    rw [slots]
    split <;> omega
  · have hroom' : ppe.plainv.length ≠ maxPlainv := hroom
    rw [heq]
    simp only
    set ppe₂ : Ppe := { ppe₁ with
      plainv := ppe₁.plainv ++ [⟨ppe₁.plain.drop ppe₁.plainvOffset, true⟩], plainvOffset := ppe₁.plain.length } with hppe₂
    have hcount : ppe₂.plainv.length = ppe.plainv.length + 1 := by simp [hppe₂, hppe₁]
    rw [slots]
    rcases addPlainv_cases ppe₂ ⟨data, false⟩ with ⟨heq₂, hz⟩ | ⟨heq₂, hpos, hfull⟩ | ⟨heq₂, hpos, hroom₂⟩
    · simp only at hz
      rw [heq₂, if_pos hz]
      exact iff_of_true rfl (by omega)
    · simp only at hpos
      rw [heq₂, if_neg (by omega)]
      exact iff_of_false (by simp) (by omega)
    · simp only at hpos
      rw [heq₂, if_neg (by omega)]
      exact iff_of_true rfl (by omega)

theorem addPlainv_inv {ppe : Ppe} (h : Inv ppe) (v : PlainV) : Inv (ppe.addPlainv v).2 := by
  obtain ⟨h₁, h₂, h₃, h₄⟩ := h
  rcases addPlainv_cases ppe v with ⟨heq, -⟩ | ⟨heq, -⟩ | ⟨heq, -, hne⟩
  · rw [heq]
    exact ⟨h₁, h₂, h₃, h₄⟩
  · rw [heq]
    exact ⟨h₁, h₂, h₃, h₄⟩
  · rw [heq]
    refine ⟨h₁, h₂, ?_, h₄⟩
    simp only [List.length_append, List.length_singleton]
    omega

theorem addPlainv_plain (ppe : Ppe) (v : PlainV) : (ppe.addPlainv v).2.plain = ppe.plain := by
  rcases addPlainv_cases ppe v with ⟨heq, -⟩ | ⟨heq, -⟩ | ⟨heq, -⟩ <;> rw [heq]

theorem flushControl_inv {ppe : Ppe} (h : Inv ppe) : Inv ppe.flushControl.2 := by
  have hadd := addPlainv_inv h ⟨ppe.plain.drop ppe.plainvOffset, true⟩
  have hplain := addPlainv_plain ppe ⟨ppe.plain.drop ppe.plainvOffset, true⟩
  rw [flushControl]
  split
  · rename_i ppe' heq
    rw [heq] at hadd hplain
    obtain ⟨h₁, -, h₃, h₄⟩ := hadd
    exact ⟨h₁, Nat.le_of_eq (by simp only at hplain ⊢; rw [hplain]), h₃, h₄⟩
  · exact hadd

theorem encodeRetained_inv {ppe : Ppe} (h : Inv ppe) (bufLeft : Nat) (hd data : Bytes)
    (hleft : ∀ n, n ≤ ppe.packetPlainLeft → ppe.payloadlen + n ≤ ppe.cap - ppe.hdlen - ppe.maxOverhead) :
    Inv (ppe.encodeRetained bufLeft hd data).2 := by
  rw [encodeRetained]
  split
  · exact h
  split
  · exact h
  split
  · exact h
  rename_i hdata hbuf hroom
  obtain ⟨h₁, h₂, h₃, h₄⟩ := h
  have hwritten : Inv { ppe with
      plain := ppe.plain ++ hd, payloadlen := ppe.payloadlen + (hd.length + data.length) } := by
    refine ⟨?_, ?_, h₃, hleft _ (by omega)⟩
    · simp only [List.length_append]
      omega
    · simp only [List.length_append]
      omega
  have hflush := flushControl_inv hwritten
  simp only
  split
  · rename_i heq
    rw [heq] at hflush
    exact addPlainv_inv hflush _
  · exact hflush

theorem encodeFrame_inv {ppe : Ppe} (h : Inv ppe) (fr : Frame) : Inv (ppe.encodeFrame fr).2 := by
  have hleft : ∀ n, n ≤ ppe.packetPlainLeft → ppe.payloadlen + n ≤ ppe.cap - ppe.hdlen - ppe.maxOverhead := by
    intro n hn
    have hp := h.payload_le
    rw [packetPlainLeft] at hn
    split_ifs at hn <;> omega
  rw [encodeFrame_eq]
  split
  · exact h
  · split
    · exact encodeRetained_inv h _ _ _ hleft
    · rw [encodeCopied]
      split
      · exact h
      · obtain ⟨h₁, h₂, h₃, h₄⟩ := h
        refine ⟨?_, ?_, h₃, hleft _ (by omega)⟩
        · simp only [List.length_append]
          omega
        · simp only [List.length_append]
          omega

theorem Reachable.inv {ppe : Ppe} (h : Reachable ppe) : Inv ppe := by
  induction h with
  | start h =>
      rw [encodeHd] at h
      split at h
      · cases h
      split at h
      · cases h
      split at h
      · cases h
      · cases h
        exact ⟨Nat.le_refl _, Nat.le_refl _, Nat.zero_le _, Nat.zero_le _⟩
  | frame _ fr ih => exact encodeFrame_inv ih fr

/-- The documented contract: a frame that fits is written, any other is refused with NOBUF and
leaves the encoder as it is. -/
def Contract (ppe : Ppe) (fr : Frame) : Prop :=
  (fr.encodedLen ≤ ppe.left → (ppe.encodeFrame fr).1 = .ok) ∧
    (ppe.left < fr.encodedLen → ppe.encodeFrame fr = (.nobuf, ppe))

/-- The frame was sized for the packet by `ngtcp2_pkt_stream_max_datalen` or
`ngtcp2_pkt_crypto_max_datalen`. -/
def Sized (ppe : Ppe) : Frame → Prop
  | .stream fr => ∃ len m, streamMaxDatalen fr.streamId fr.offset len ppe.left = some m ∧
      (fr.txbuf.getD fr.data).bytes.length ≤ m
  | .crypto fr => ∃ len m, cryptoMaxDatalen fr.offset len ppe.left = some m ∧ fr.data.bytes.length ≤ m
  | _ => False

/-- A frame that fits finds room for its control bytes in the plaintext storage and, if its data is
not copied, for its entries in the table; a packet that is full takes no frame at all. -/
def HasRoom (ppe : Ppe) (fr : Frame) : Prop :=
  fr.encodedLen ≤ ppe.left → 0 < ppe.left ∧ 0 < ppe.plainLeft ∧ fr.control.length ≤ ppe.plainLeft ∧
    ∀ buf, fr.zeroCopy = some buf → ppe.plainv.length + slots buf.bytes ≤ maxPlainv

theorem encodeFrame_refused {ppe : Ppe} {fr : Frame} (h : ppe.left < fr.encodedLen) :
    ppe.encodeFrame fr = (.nobuf, ppe) := by
  rw [left, Frame.encodedLen] at h
  rw [encodeFrame_eq]
  split
  · rfl
  · split
    · rename_i buf hz
      rw [hz, Option.map_some, Option.getD_some] at h
      rw [encodeRetained]
      split
      · rfl
      split
      · rfl
      · rw [if_pos (by omega)]
    · rename_i hz
      rw [hz, Option.map_none, Option.getD_none] at h
      rw [encodeCopied, if_pos (by omega)]

theorem encodeFrame_written_iff {ppe : Ppe} (hinv : Inv ppe) {fr : Frame} (h : fr.encodedLen ≤ ppe.left) :
    (ppe.encodeFrame fr).1 = .ok ↔ HasRoom ppe fr := by
  have hlen := h
  rw [left, Frame.encodedLen] at h
  rw [encodeFrame_eq, HasRoom, left]
  rw [left] at hlen
  simp only [hlen, true_implies]
  by_cases hz : min ppe.plainLeft ppe.packetPlainLeft = 0
  · rw [if_pos hz]
    exact iff_of_false (by simp) (fun hc => by omega)
  rw [if_neg hz]
  cases hzc : fr.zeroCopy with
  | some buf =>
      rw [hzc, Option.map_some, Option.getD_some] at h
      simp only [Option.some.injEq, forall_eq']
      by_cases hstore : fr.control.length ≤ ppe.plainLeft
      · rw [encodeRetained_fits hinv (Frame.control_pos hzc) h (by omega)]
        exact ⟨fun hs => ⟨by omega, by omega, hstore, hs⟩, fun hc => hc.2.2.2⟩
      · refine iff_of_false ?_ (fun hc => hstore hc.2.2.1)
        rw [encodeRetained, if_neg (by omega), if_pos (by omega)]
        simp
  | none =>
      rw [hzc, Option.map_none, Option.getD_none] at h
      simp only [encodeCopied]
      split
      · exact iff_of_false (by simp) (fun hc => by omega)
      · exact iff_of_true rfl ⟨by omega, by omega, by omega, fun buf hb => by cases hb⟩

/-- In every reachable state and for every frame, the contract holds, and a frame that was sized for
the packet is written, exactly when the frame finds room if it fits. -/
theorem encodeFrame_contract_iff (ppe : Ppe) (fr : Frame) (h : Reachable ppe) :
    (Contract ppe fr ∧ (Sized ppe fr → (ppe.encodeFrame fr).1 = .ok)) ↔ HasRoom ppe fr := by
  constructor
  · rintro ⟨⟨hfit, -⟩, -⟩ hle
    exact (encodeFrame_written_iff h.inv hle).mp (hfit hle) hle
  · intro hroom
    have hfit : fr.encodedLen ≤ ppe.left → (ppe.encodeFrame fr).1 = .ok :=
      fun hle => (encodeFrame_written_iff h.inv hle).mpr hroom
    refine ⟨⟨hfit, encodeFrame_refused⟩, fun hs => hfit ?_⟩
    cases fr with
    | stream fr =>
        obtain ⟨len, m, hm, hle⟩ := hs
        exact stream_fits hm hle
    | crypto fr =>
        obtain ⟨len, m, hm, hle⟩ := hs
        exact crypto_fits hm hle
    | _ => exact hs.elim

/-- In a packet no larger than the largest UDP payload the plaintext storage is never the limit. -/
theorem Reachable.plainLeft_ge {ppe : Ppe} (h : Reachable ppe) (hcap : ppe.cap ≤ maxTxUdpPayloadSize) :
    ppe.left ≤ ppe.plainLeft := by
  have hp := h.inv.plain_le
  rw [left, packetPlainLeft, plainLeft]
  split_ifs <;> omega

theorem Reachable.foldl {ppe : Ppe} (h : Reachable ppe) (frs : List Frame) :
    Reachable (frs.foldl (fun p fr => (p.encodeFrame fr).2) ppe) := by
  induction frs generalizing ppe with
  | nil => exact h
  | cons fr frs ih => exact ih (h.frame fr)

/-- A packet of 1200 bytes with a short header and a tag of 16 bytes. -/
def shortPkt : Ppe :=
  (encodeHd { cap := 1200, maxOverhead := 16 } 20 18).2

theorem shortPkt_reachable : Reachable shortPkt :=
  @Reachable.start 1200 16 20 18 shortPkt rfl

/-- One byte of stream 0 in a retained buffer. -/
def oneByte : Frame :=
  .stream ⟨false, ⟨0, Nat.two_pow_pos 62⟩, ⟨0, Nat.two_pow_pos 62⟩, ⟨[], Nat.two_pow_pos 62⟩,
    some ⟨[[7]], Nat.one_lt_two_pow (Nat.succ_ne_zero 61)⟩⟩

/-- The packet with `n` such frames. -/
def coalesced (n : Nat) : Ppe :=
  (List.replicate n oneByte).foldl (fun p fr => (p.encodeFrame fr).2) shortPkt

theorem coalesced_reachable (n : Nat) : Reachable (coalesced n) :=
  shortPkt_reachable.foldl _

/-- The last frame for which the table has room. -/
theorem encodeFrame_contract_iff_coalesced :
    Reachable (coalesced 31) ∧ Contract (coalesced 31) oneByte ∧
      (Sized (coalesced 31) oneByte → ((coalesced 31).encodeFrame oneByte).1 = .ok) := by
  refine ⟨coalesced_reachable 31, (encodeFrame_contract_iff _ _ (coalesced_reachable 31)).mpr (fun _ => ?_)⟩
  refine ⟨by decide +kernel, by decide +kernel, by decide +kernel, fun buf hb => ?_⟩
  cases hb
  decide +kernel

theorem coalesced_full : ((coalesced 32).encodeFrame oneByte).1 = .bufContract ∧
    oneByte.encodedLen ≤ (coalesced 32).left ∧ streamMaxDatalen ⟨0, by decide⟩ ⟨0, by decide⟩ 1 (coalesced 32).left = some 1 := by
  decide +kernel

/-- The table is full after 32 frames; the next one fits the packet and is sized for it, but fails. -/
theorem coalesced_breaks_contract :
    ¬ ∀ ppe fr, Reachable ppe → Contract ppe fr ∧ (Sized ppe fr → (ppe.encodeFrame fr).1 = .ok) := by
  intro h
  obtain ⟨⟨hfit, -⟩, -⟩ := h (coalesced 32) oneByte (coalesced_reachable 32)
  have hok := hfit coalesced_full.2.1
  rw [coalesced_full.1] at hok
  cases hok

end Ppe

end Zngtcp2.Pkt
