import Zngtcp2.Tp.Fields

namespace Zngtcp2.Tp

open Pkt (Bytes Stop Dec)
open Lib.Records (readAll)

section RoundTrip

/-- The parameters that come back: what is present, and the default in place of a limit of zero, which is
not written. -/
def TransportParams.restored (params : TransportParams) : TransportParams :=
  { params.present with
    activeConnectionIdLimit :=
      if params.activeConnectionIdLimit = 0 then defaultActiveConnectionIdLimit else params.activeConnectionIdLimit }

theorem TransportParams.restored_eq {params : TransportParams} (h : params.activeConnectionIdLimit ≠ 0) :
    params.restored = params.present := by
  rw [restored, if_neg h]
  rfl

theorem store_ok {α : Type} {x : Dec (α × Bytes)} {a : α} {rest : Bytes} (h : x = .ok (a, rest))
    (f : α → TransportParams) : store x f = .ok (f a, rest) := by
  rw [h]
  rfl

/-- What the encoder does with a parameter, and what the decoder makes of it. -/
def Record (params q : TransportParams) (id : TransportParamId) : Prop :=
  ∃ xs, writeParam params id = .ok xs ∧ paramlen params id = .ok xs.length ∧
    (xs = [] ∧ q.adopt params.restored id = q ∨
      2 ≤ xs.length ∧ ∀ rest, decodeStep q (xs ++ rest) = .ok (q.adopt params.restored id, rest))

theorem record_if {params q : TransportParams} {id : TransportParamId} {c : Prop} [Decidable c] {write : Dec Bytes}
    {len : Dec Nat} (hwrite : writeParam params id = if c then write else .ok [])
    (hlen : paramlen params id = if c then len else .ok 0)
    (hread : c → ∃ body, Written id write len body ∧
      ∀ rest, decodeParam q id (body ++ rest) = .ok (q.adopt params.restored id, rest))
    (habsent : ¬ c → q.adopt params.restored id = q) : Record params q id := by
  by_cases hc : c
  · obtain ⟨body, hbody, hdecode⟩ := hread hc
    rw [if_pos hc] at hwrite hlen
    refine ⟨id.type ++ body, hwrite.trans hbody.write_eq, hlen.trans hbody.len_eq, Or.inr ⟨?_, fun rest => ?_⟩⟩
    · have htype := Pkt.putUvarintlen_pos ⟨id.toNat, id.toNat_lt⟩
      have hpos := List.length_pos_iff.mpr hbody.nonempty
      rw [List.length_append, TransportParamId.type, Pkt.putUvarint_length]
      omega
    · rw [List.append_assoc, decodeStep_type, hdecode]
  · rw [if_neg hc] at hwrite hlen
    exact ⟨[], hwrite, hlen, Or.inl ⟨rfl, habsent hc⟩⟩

variable {params q : TransportParams}

theorem record_cid {id : TransportParamId} {present : Bool} {cid : Bytes}
    (hwrite : writeParam params id = if present then writeCidParam id cid else .ok [])
    (hlen : paramlen params id = if present then cidParamlen id cid else .ok 0)
    (hcid : present = true → cid.length ≤ maxCidlen)
    (hread : present = true → ∀ p rest, decodeCidParam p = .ok (cid, rest) →
      decodeParam q id p = .ok (q.adopt params.restored id, rest))
    (habsent : ¬ present = true → q.adopt params.restored id = q) : Record params q id := by
  refine record_if hwrite hlen (fun hpresent => ?_) habsent
  obtain ⟨body, hbody, hdecode⟩ := written_cid id (hcid hpresent)
  exact ⟨body, hbody, fun rest => hread hpresent _ rest (hdecode rest)⟩

theorem record_varint {id : TransportParamId} {c : Prop} [Decidable c] {value : Nat}
    (hwrite : writeParam params id = if c then writeVarintParam id value else .ok [])
    (hlen : paramlen params id = if c then varintParamlen id value else .ok 0) (hvalue : value < 2 ^ 62)
    (hread : c → ∀ p rest, decodeVarintParam p = .ok (value, rest) →
      decodeParam q id p = .ok (q.adopt params.restored id, rest))
    (habsent : ¬ c → q.adopt params.restored id = q) : Record params q id := by
  refine record_if hwrite hlen (fun hc => ?_) habsent
  obtain ⟨body, hbody, hdecode⟩ := written_varint id hvalue
  exact ⟨body, hbody, fun rest => hread hc _ rest (hdecode rest)⟩

theorem decodeBoundedParam_ok {bound value : Nat} (h : value ≤ bound) {p rest : Bytes}
    (hp : decodeVarintParam p = .ok (value, rest)) : decodeBoundedParam bound p = .ok (value, rest) := by
  rw [decodeBoundedParam, hp]
  simp only [bind, Except.bind]
  rw [if_neg (Nat.not_lt.mpr h)]

theorem decodeIdleTimeoutParam_ok {timeout : Nat} (hlt : timeout < 2 ^ 64) (hwhole : timeout % milliseconds = 0)
    {p rest : Bytes} (hp : decodeVarintParam p = .ok (timeout / milliseconds, rest)) :
    decodeIdleTimeoutParam p = .ok (timeout, rest) := by
  have hle : timeout / milliseconds ≤ uint64Max / milliseconds := Nat.div_le_div_right (Nat.le_pred_of_lt hlt)
  rw [decodeIdleTimeoutParam, hp]
  simp only [bind, Except.bind]
  rw [if_neg (Nat.not_lt.mpr hle), Nat.div_mul_cancel (Nat.dvd_of_mod_eq_zero hwhole), Nat.mod_eq_of_lt hlt]

theorem decodeMaxAckDelayParam_ok {n : Nat} (h : n < 16384) {p rest : Bytes}
    (hp : decodeVarintParam p = .ok (n, rest)) : decodeMaxAckDelayParam p = .ok (n * milliseconds, rest) := by
  rw [decodeMaxAckDelayParam, hp]
  simp only [bind, Except.bind]
  rw [if_neg (Nat.not_le.mpr h)]

theorem restored_record (h : params.Writable)
    (hcid : params.preferredAddrPresent → minCidlen ≤ params.preferredAddr.cid.length)
    (id : TransportParamId) (hq : q.Lacks id) : Record params q id := by
  cases id with
  | originalDestinationConnectionId =>
      apply record_cid rfl rfl h.originalDcid
      · intro hpresent p rest hp
        rw [decodeParam, store_ok hp]
        simp [TransportParams.adopt, TransportParamId.pick, TransportParams.restored, TransportParams.present, hpresent]
      · intro hpresent
        rw [Bool.not_eq_true] at hpresent
        apply Eq.trans _ hq
        simp [TransportParams.adopt, TransportParamId.pick, TransportParams.restored, TransportParams.present, hpresent, transportParamsDefault]
  | retrySourceConnectionId =>
      apply record_cid rfl rfl h.retryScid
      · intro hpresent p rest hp
        rw [decodeParam, store_ok hp]
        simp [TransportParams.adopt, TransportParamId.pick, TransportParams.restored, TransportParams.present, hpresent]
      · intro hpresent
        rw [Bool.not_eq_true] at hpresent
        apply Eq.trans _ hq
        simp [TransportParams.adopt, TransportParamId.pick, TransportParams.restored, TransportParams.present, hpresent, transportParamsDefault]
  | initialSourceConnectionId =>
      apply record_cid rfl rfl h.initialScid
      · intro hpresent p rest hp
        rw [decodeParam, store_ok hp]
        simp [TransportParams.adopt, TransportParamId.pick, TransportParams.restored, TransportParams.present, hpresent]
      · intro hpresent
        rw [Bool.not_eq_true] at hpresent
        apply Eq.trans _ hq
        simp [TransportParams.adopt, TransportParamId.pick, TransportParams.restored, TransportParams.present, hpresent, transportParamsDefault]
  | initialMaxStreamDataBidiLocal =>
      apply record_varint rfl rfl h.initialMaxStreamDataBidiLocal
      · intro hvalue p rest hp
        rw [decodeParam, store_ok hp]
        simp [TransportParams.adopt, TransportParamId.pick, TransportParams.restored, TransportParams.present]
      · intro habsent
        apply Eq.trans _ hq
        simp [TransportParams.adopt, TransportParamId.pick, TransportParams.restored, TransportParams.present, not_not.mp habsent, transportParamsDefault]
  | initialMaxStreamDataBidiRemote =>
      apply record_varint rfl rfl h.initialMaxStreamDataBidiRemote
      · intro hvalue p rest hp
        rw [decodeParam, store_ok hp]
        simp [TransportParams.adopt, TransportParamId.pick, TransportParams.restored, TransportParams.present]
      · intro habsent
        apply Eq.trans _ hq
        simp [TransportParams.adopt, TransportParamId.pick, TransportParams.restored, TransportParams.present, not_not.mp habsent, transportParamsDefault]
  | initialMaxStreamDataUni =>
      apply record_varint rfl rfl h.initialMaxStreamDataUni
      · intro hvalue p rest hp
        rw [decodeParam, store_ok hp]
        simp [TransportParams.adopt, TransportParamId.pick, TransportParams.restored, TransportParams.present]
      · intro habsent
        apply Eq.trans _ hq
        simp [TransportParams.adopt, TransportParamId.pick, TransportParams.restored, TransportParams.present, not_not.mp habsent, transportParamsDefault]
  | initialMaxData =>
      apply record_varint rfl rfl h.initialMaxData
      · intro hvalue p rest hp
        rw [decodeParam, store_ok hp]
        simp [TransportParams.adopt, TransportParamId.pick, TransportParams.restored, TransportParams.present]
      · intro habsent
        apply Eq.trans _ hq
        simp [TransportParams.adopt, TransportParamId.pick, TransportParams.restored, TransportParams.present, not_not.mp habsent, transportParamsDefault]
  | maxUdpPayloadSize =>
      apply record_varint rfl rfl h.maxUdpPayloadSize
      · intro hvalue p rest hp
        rw [decodeParam, store_ok hp]
        simp [TransportParams.adopt, TransportParamId.pick, TransportParams.restored, TransportParams.present]
      · intro habsent
        apply Eq.trans _ hq
        simp [TransportParams.adopt, TransportParamId.pick, TransportParams.restored, TransportParams.present, not_not.mp habsent, transportParamsDefault]
  | maxDatagramFrameSize =>
      apply record_varint rfl rfl h.maxDatagramFrameSize
      · intro hvalue p rest hp
        rw [decodeParam, store_ok hp]
        simp [TransportParams.adopt, TransportParamId.pick, TransportParams.restored, TransportParams.present]
      · intro habsent
        apply Eq.trans _ hq
        simp [TransportParams.adopt, TransportParamId.pick, TransportParams.restored, TransportParams.present, not_not.mp habsent, transportParamsDefault]
  | initialMaxStreamsBidi =>
      apply record_varint rfl rfl (Nat.lt_of_le_of_lt h.initialMaxStreamsBidi (by decide))
      · intro hvalue p rest hp
        rw [decodeParam, store_ok (decodeBoundedParam_ok h.initialMaxStreamsBidi hp)]
        simp [TransportParams.adopt, TransportParamId.pick, TransportParams.restored, TransportParams.present]
      · intro habsent
        apply Eq.trans _ hq
        simp [TransportParams.adopt, TransportParamId.pick, TransportParams.restored, TransportParams.present, not_not.mp habsent, transportParamsDefault]
  | initialMaxStreamsUni =>
      apply record_varint rfl rfl (Nat.lt_of_le_of_lt h.initialMaxStreamsUni (by decide))
      · intro hvalue p rest hp
        rw [decodeParam, store_ok (decodeBoundedParam_ok h.initialMaxStreamsUni hp)]
        simp [TransportParams.adopt, TransportParamId.pick, TransportParams.restored, TransportParams.present]
      · intro habsent
        apply Eq.trans _ hq
        simp [TransportParams.adopt, TransportParamId.pick, TransportParams.restored, TransportParams.present, not_not.mp habsent, transportParamsDefault]
  | ackDelayExponent =>
      apply record_varint rfl rfl (Nat.lt_of_le_of_lt h.ackDelayExponent (by decide))
      · intro hvalue p rest hp
        rw [decodeParam, store_ok (decodeBoundedParam_ok h.ackDelayExponent hp)]
        simp [TransportParams.adopt, TransportParamId.pick, TransportParams.restored, TransportParams.present]
      · intro habsent
        apply Eq.trans _ hq
        simp [TransportParams.adopt, TransportParamId.pick, TransportParams.restored, TransportParams.present, not_not.mp habsent, transportParamsDefault]
  | disableActiveMigration =>
      apply record_if rfl rfl
      · intro hpresent
        refine ⟨[0], written_zero _, fun rest => ?_⟩
        rw [decodeParam, store_ok (decodeZeroParam_zero rest)]
        simp [TransportParams.adopt, TransportParamId.pick, TransportParams.restored, TransportParams.present, hpresent]
      · intro hpresent
        rw [Bool.not_eq_true] at hpresent
        apply Eq.trans _ hq
        simp [TransportParams.adopt, TransportParamId.pick, TransportParams.restored, TransportParams.present, hpresent, transportParamsDefault]
  | greaseQuicBit =>
      apply record_if rfl rfl
      · intro hpresent
        refine ⟨[0], written_zero _, fun rest => ?_⟩
        rw [decodeParam, store_ok (decodeZeroParam_zero rest)]
        simp [TransportParams.adopt, TransportParamId.pick, TransportParams.restored, TransportParams.present, hpresent]
      · intro hpresent
        rw [Bool.not_eq_true] at hpresent
        apply Eq.trans _ hq
        simp [TransportParams.adopt, TransportParamId.pick, TransportParams.restored, TransportParams.present, hpresent, transportParamsDefault]
  | maxIdleTimeout =>
      have hlt : params.maxIdleTimeout / milliseconds < 2 ^ 62 :=
        Nat.div_lt_of_lt_mul (Nat.lt_of_lt_of_le h.maxIdleTimeout (by decide))
      apply record_varint rfl rfl hlt
      · intro hvalue p rest hp
        rw [decodeParam, store_ok (decodeIdleTimeoutParam_ok h.maxIdleTimeout h.wholeIdleTimeout hp)]
        simp [TransportParams.adopt, TransportParamId.pick, TransportParams.restored, TransportParams.present]
      · intro habsent
        apply Eq.trans _ hq
        simp [TransportParams.adopt, TransportParamId.pick, TransportParams.restored, TransportParams.present, not_not.mp habsent, transportParamsDefault]
  | maxAckDelay =>
      obtain ⟨n, hn, hdelay⟩ := h.maxAckDelay
      have hdiv : params.maxAckDelay / milliseconds = n := by
        rw [hdelay, Nat.mul_div_cancel n (by decide)]
      apply record_varint rfl rfl (by omega)
      · intro hvalue p rest hp
        rw [hdiv] at hp
        rw [decodeParam, store_ok (decodeMaxAckDelayParam_ok hn hp)]
        simp [TransportParams.adopt, TransportParamId.pick, TransportParams.restored, TransportParams.present, hdelay]
      · intro habsent
        apply Eq.trans _ hq
        simp [TransportParams.adopt, TransportParamId.pick, TransportParams.restored, TransportParams.present, not_not.mp habsent, transportParamsDefault]
  | activeConnectionIdLimit =>
      apply record_varint rfl rfl h.activeConnectionIdLimit
      · intro hvalue p rest hp
        rw [decodeParam, store_ok hp]
        simp [TransportParams.adopt, TransportParamId.pick, TransportParams.restored, TransportParams.present, hvalue.1]
      · intro habsent
        apply Eq.trans _ hq
        have hlimit : (if params.activeConnectionIdLimit = 0 then defaultActiveConnectionIdLimit
            else params.activeConnectionIdLimit) = defaultActiveConnectionIdLimit := by
          split_ifs with hzero
          · rfl
          · by_contra hne
            exact habsent ⟨hzero, hne⟩
        simp [TransportParams.adopt, TransportParamId.pick, TransportParams.restored, TransportParams.present, hlimit, transportParamsDefault]
  | statelessResetToken =>
      apply record_if rfl rfl
      · intro hpresent
        obtain ⟨body, hbody, hdecode⟩ := written_token .statelessResetToken params.statelessResetToken
        refine ⟨body, hbody, fun rest => ?_⟩
        rw [decodeParam, store_ok (hdecode rest)]
        simp [TransportParams.adopt, TransportParamId.pick, TransportParams.restored, TransportParams.present, hpresent]
      · intro hpresent
        rw [Bool.not_eq_true] at hpresent
        apply Eq.trans _ hq
        simp [TransportParams.adopt, TransportParamId.pick, TransportParams.restored, TransportParams.present, hpresent, transportParamsDefault]
  | versionInformation =>
      apply record_if rfl rfl
      · intro hpresent
        obtain ⟨body, hbody, hdecode⟩ := written_versionInfo .versionInformation (h.versionInfo hpresent)
        have hinfo : q.versionInfo = {} := by
          rw [← hq]
          rfl
        refine ⟨body, hbody, fun rest => ?_⟩
        rw [decodeParam, hinfo, store_ok (hdecode rest)]
        simp [TransportParams.adopt, TransportParamId.pick, TransportParams.restored, TransportParams.present, hpresent]
      · intro hpresent
        rw [Bool.not_eq_true] at hpresent
        apply Eq.trans _ hq
        simp [TransportParams.adopt, TransportParamId.pick, TransportParams.restored, TransportParams.present, hpresent, transportParamsDefault]
  | preferredAddress =>
      by_cases hpresent : params.preferredAddrPresent = true
      · obtain ⟨body, hbody, hdecode⟩ := written_preferredAddr .preferredAddress (hcid hpresent)
          (h.preferredCid hpresent) (h.ipv4 hpresent) (h.ipv6 hpresent)
        have haddr : q.preferredAddr = {} := by
          rw [← hq]
          rfl
        have hlen : paramlen params .preferredAddress = if params.preferredAddrPresent then
            bytesParamlen .preferredAddress (preferredAddrlen params.preferredAddr) else .ok 0 := by
          rw [paramlen, if_pos hpresent, if_pos hpresent, if_pos ⟨hcid hpresent, h.preferredCid hpresent⟩]
        refine record_if rfl hlen (fun _ => ⟨body, hbody, fun rest => ?_⟩) fun habsent => absurd hpresent habsent
        rw [decodeParam, haddr, store_ok (hdecode rest)]
        simp [TransportParams.adopt, TransportParamId.pick, TransportParams.restored, TransportParams.present, hpresent]
      · have hlen : paramlen params .preferredAddress = if params.preferredAddrPresent then .ok 0 else .ok 0 := by
          rw [paramlen, if_neg hpresent, ite_self]
        apply record_if rfl hlen
        · exact fun hpresent' => absurd hpresent' hpresent
        · rw [Bool.not_eq_true] at hpresent
          intro _
          apply Eq.trans _ hq
          simp [TransportParams.adopt, TransportParamId.pick, TransportParams.restored, TransportParams.present, hpresent, transportParamsDefault]

/-- The two passes of the encoder agree, and the decoder returns what was encoded. -/
theorem encode_restored (h : params.Writable)
    (hcid : params.preferredAddrPresent → minCidlen ≤ params.preferredAddr.cid.length) :
    ∃ bytes : Bytes, encode none params = .ok (bytes.length, []) ∧
      (∀ destlen, bytes.length ≤ destlen → encode (some destlen) params = .ok (bytes.length, bytes)) ∧
      (∀ destlen, destlen < bytes.length → encode (some destlen) params = .error (.err .nobuf)) ∧
      decode bytes = .ok params.restored := by
  let take : TransportParams → TransportParamId → TransportParams := fun q id => q.adopt params.restored id
  obtain ⟨bytes, hwrite, hlen, hread⟩ := Lib.Records.readAll_writeAll decodeStep_consumes take
    TransportParams.Lacks (fun id q hq => restored_record h hcid id hq) (fun q id id' hne hq => hq.adopt hne)
    encodeOrder_nodup (fun id _ => transportParamsDefault_lacks id)
  refine ⟨bytes, ?_, fun destlen hle => ?_, fun destlen hlt => ?_, ?_⟩
  · rw [encode, hlen]
    rfl
  · rw [encode, hlen]
    simp only [bind, Except.bind]
    rw [if_neg (Nat.not_lt.mpr hle), hwrite]
    dsimp only
    rw [if_pos rfl]
  · rw [encode, hlen]
    simp only [bind, Except.bind]
    rw [if_pos hlt]
  · have hdone := hread []
    rw [List.append_nil, TransportParams.adopt_encodeOrder] at hdone
    have hstop : readAll decodeStep decodeStep_consumes 2 params.restored [] = .ok (params.restored, []) :=
      Lib.Records.readAll_stop (Nat.zero_lt_two)
    rw [decode, hdone, hstop]
    rfl

end RoundTrip

section WellFormed

/-- Well-formed parameters are read back as they are, whichever of them are present; the connection ID of a
preferred address must not be empty. -/
theorem encode_decode {params : TransportParams} (h : params.WellFormed)
    (hcid : params.preferredAddrPresent → minCidlen ≤ params.preferredAddr.cid.length) :
    ∃ bytes : Bytes, encode none params = .ok (bytes.length, []) ∧
      (∀ destlen, bytes.length ≤ destlen → encode (some destlen) params = .ok (bytes.length, bytes)) ∧
      (∀ destlen, destlen < bytes.length → encode (some destlen) params = .error (.err .nobuf)) ∧
      decode bytes = .ok params.present := by
  rw [← TransportParams.restored_eq (Nat.ne_of_gt h.limit_pos)]
  exact encode_restored h.toWritable hcid

/-- Parameters with an IPv4 address and two versions. -/
def sampleParams : TransportParams :=
  { transportParamsDefault with
    initialMaxData := 100000
    maxIdleTimeout := 30000 * milliseconds
    maxAckDelay := 0
    originalDcid := [1, 2, 3]
    originalDcidPresent := true
    preferredAddr := { cid := [7], ipv4 := { family := .inet, addr := #v[127, 0, 0, 1] }, ipv4Present := true }
    preferredAddrPresent := true
    greaseQuicBit := true
    versionInfo := ⟨1, [0, 0, 0, 1, 0x6B, 0x33, 0x43, 0xCF]⟩
    versionInfoPresent := true }

theorem sampleParams_wellFormed : sampleParams.WellFormed where
  initialMaxStreamDataBidiLocal := by decide
  initialMaxStreamDataBidiRemote := by decide
  initialMaxStreamDataUni := by decide
  initialMaxData := by decide
  initialMaxStreamsBidi := by decide
  initialMaxStreamsUni := by decide
  maxIdleTimeout := by decide
  maxUdpPayloadSize := by decide
  activeConnectionIdLimit := by decide
  ackDelayExponent := by decide
  maxAckDelay := ⟨0, by decide, rfl⟩
  maxDatagramFrameSize := by decide
  originalDcid := fun _ => by decide
  initialScid := fun h => absurd h Bool.false_ne_true
  retryScid := fun h => absurd h Bool.false_ne_true
  preferredCid := fun _ => by decide
  versionInfo := fun _ => ⟨by decide, by decide, ⟨[1, 0x6B3343CF], by decide, by decide⟩, by decide⟩
  wholeIdleTimeout := by decide
  ipv4 := fun _ _ => ⟨rfl, by rw [Sockaddr.IsZero]; decide⟩
  ipv6 := fun _ h => absurd h Bool.false_ne_true
  limit_pos := by decide

theorem encode_decode_sampleParams : ∃ bytes : Bytes, encode none sampleParams = .ok (bytes.length, []) ∧
    (∀ destlen, bytes.length ≤ destlen → encode (some destlen) sampleParams = .ok (bytes.length, bytes)) ∧
    (∀ destlen, destlen < bytes.length → encode (some destlen) sampleParams = .error (.err .nobuf)) ∧
    decode bytes = .ok sampleParams.present :=
  encode_decode sampleParams_wellFormed fun _ => by decide

/-- A preferred address whose connection ID is empty. -/
def emptyCidParams : TransportParams :=
  { transportParamsDefault with
    preferredAddr := { ipv4 := { family := .inet, addr := #v[127, 0, 0, 1] }, ipv4Present := true }
    preferredAddrPresent := true }

theorem emptyCidParams_wellFormed : emptyCidParams.WellFormed where
  initialMaxStreamDataBidiLocal := by decide
  initialMaxStreamDataBidiRemote := by decide
  initialMaxStreamDataUni := by decide
  initialMaxData := by decide
  initialMaxStreamsBidi := by decide
  initialMaxStreamsUni := by decide
  maxIdleTimeout := by decide
  maxUdpPayloadSize := by decide
  activeConnectionIdLimit := by decide
  ackDelayExponent := by decide
  maxAckDelay := ⟨25, by decide, rfl⟩
  maxDatagramFrameSize := by decide
  originalDcid := fun h => absurd h Bool.false_ne_true
  initialScid := fun h => absurd h Bool.false_ne_true
  retryScid := fun h => absurd h Bool.false_ne_true
  preferredCid := fun _ => by decide
  versionInfo := fun h => absurd h Bool.false_ne_true
  wholeIdleTimeout := by decide
  ipv4 := fun _ _ => ⟨rfl, by rw [Sockaddr.IsZero]; decide⟩
  ipv6 := fun _ h => absurd h Bool.false_ne_true
  limit_pos := by decide

/-- The encoder asserts that the connection ID of the preferred address is not empty. -/
theorem emptyCidParams_asserts : emptyCidParams.WellFormed ∧ encode none emptyCidParams = .error .assertion :=
  ⟨emptyCidParams_wellFormed, rfl⟩

end WellFormed

section Stability

theorem Sockaddr.Received.valid {n : Nat} {family : AddrFamily} {sa : Sockaddr n} {present : Bool}
    (h : sa.Received family present) (hzero : present → ¬ sa.IsZero) : sa.Valid family present :=
  fun hpresent => ⟨h.family_eq hpresent, hzero hpresent⟩

theorem Sockaddr.Received.present_eq {n : Nat} {family : AddrFamily} {sa : Sockaddr n} {present : Bool}
    (h : sa.Received family present) : (if present then sa else {}) = sa := by
  cases present with
  | true => rw [if_pos rfl]
  | false => rw [if_neg Bool.false_ne_true, h.absent rfl]

/-- There is no data among received parameters that is not present. -/
theorem TransportParams.Received.present_eq {params : TransportParams} (h : params.Received) :
    params.present = params := by
  have hif : ∀ {α : Type} (b : Bool) (x y : α), (b = false → x = y) → (if b then x else y) = x := by
    intro α b x y hxy
    cases b with
    | true => rw [if_pos rfl]
    | false => rw [if_neg Bool.false_ne_true, hxy rfl]
  have haddr : params.preferredAddr.present = params.preferredAddr := by
    rw [PreferredAddr.present, h.preferredAddr.ipv4.present_eq, h.preferredAddr.ipv6.present_eq]
  rw [TransportParams.present, haddr, hif _ _ _ h.preferredAddr_absent, hif _ _ _ h.originalDcid_absent,
    hif _ _ _ h.initialScid_absent, hif _ _ _ h.retryScid_absent, hif _ _ _ h.token_absent,
    hif _ _ _ h.versionInfo_absent]

/-- Received parameters that are stored and restored are the same, save that an active connection ID limit of
zero comes back as the default. -/
theorem decode_encode_decode {data bytes : Bytes} {params : TransportParams} {destlen len : Nat}
    (hdecode : decode data = .ok params) (hidle : params.maxIdleTimeout % milliseconds = 0)
    (hipv4 : params.preferredAddr.ipv4Present → ¬ params.preferredAddr.ipv4.IsZero)
    (hipv6 : params.preferredAddr.ipv6Present → ¬ params.preferredAddr.ipv6.IsZero)
    (hencode : encode (some destlen) params = .ok (len, bytes)) :
    decode bytes = .ok
      { params with
        activeConnectionIdLimit :=
          if params.activeConnectionIdLimit = 0 then defaultActiveConnectionIdLimit
          else params.activeConnectionIdLimit } := by
  have hreceived := decode_safe data
  rw [hdecode] at hreceived
  have hwritable : params.Writable :=
    { hreceived with
      wholeIdleTimeout := hidle
      ipv4 := fun _ => hreceived.preferredAddr.ipv4.valid hipv4
      ipv6 := fun _ => hreceived.preferredAddr.ipv6.valid hipv6 }
  obtain ⟨bytes', -, hfits, hnobuf, hrestored⟩ := encode_restored hwritable hreceived.preferredCid_pos
  by_cases hlen : bytes'.length ≤ destlen
  · rw [hfits destlen hlen] at hencode
    cases hencode
    rw [hrestored, TransportParams.restored, hreceived.present_eq]
  · rw [hnobuf destlen (Nat.not_le.mp hlen)] at hencode
    cases hencode

/-- The data of two parameters, of which the second one is a limit of zero. -/
def zeroLimitData : Bytes :=
  [0x04, 0x01, 0x07, 0x0E, 0x01, 0x00]

def zeroLimitParams : TransportParams :=
  { transportParamsDefault with initialMaxData := 7, activeConnectionIdLimit := 0 }

theorem decode_zeroLimitData : decode zeroLimitData = .ok zeroLimitParams := by
  have hfirst : decodeStep transportParamsDefault zeroLimitData =
      .ok ({ transportParamsDefault with initialMaxData := 7 }, [0x0E, 0x01, 0x00]) := rfl
  have hsecond : decodeStep { transportParamsDefault with initialMaxData := 7 } [0x0E, 0x01, 0x00] =
      .ok (zeroLimitParams, []) := rfl
  rw [decode, Lib.Records.readAll_step (by decide) hfirst, Lib.Records.readAll_step (by decide) hsecond,
    Lib.Records.readAll_stop (by decide)]
  rfl

theorem decode_encode_decode_zeroLimit : decode [0x04, 0x01, 0x07] =
    .ok { zeroLimitParams with
      activeConnectionIdLimit := if (0 : Nat) = 0 then defaultActiveConnectionIdLimit else 0 } :=
  @decode_encode_decode zeroLimitData [0x04, 0x01, 0x07] zeroLimitParams 3 3 decode_zeroLimitData rfl
    (fun h => absurd h Bool.false_ne_true) (fun h => absurd h Bool.false_ne_true) rfl

/-- A limit of zero does not survive. -/
theorem zeroLimit_not_stable : ¬ ∀ (data bytes : Bytes) (params : TransportParams) (destlen len : Nat),
    decode data = .ok params → encode (some destlen) params = .ok (len, bytes) → decode bytes = .ok params := by
  intro h
  have hstable := h zeroLimitData [0x04, 0x01, 0x07] zeroLimitParams 3 3 decode_zeroLimitData rfl
  have hfirst : decodeStep transportParamsDefault [0x04, 0x01, 0x07] =
      .ok ({ transportParamsDefault with initialMaxData := 7 }, []) := rfl
  rw [decode, Lib.Records.readAll_step (by decide) hfirst, Lib.Records.readAll_stop (by decide)] at hstable
  have hlimit := congrArg (fun x : Dec TransportParams => x.toOption.map (·.activeConnectionIdLimit)) hstable
  exact absurd hlimit (by decide)

end Stability

end Zngtcp2.Tp
