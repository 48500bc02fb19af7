import Zngtcp2.Pkt.Conv
import Zngtcp2.Tp.Params

namespace Zngtcp2.Tp

open Pkt (Bytes Stop Dec getUvarint getUvarintlen getUintbe putUintbe)
open Lib.Run (Ends)
open Lib.Records (Consumes readAll)

def malformed {α : Type} : Dec α :=
  .error (.err .malformedTransportParam)

section Reading

/-- The next `n` bytes; they must be there. -/
def getBytes (n : Nat) (p : Bytes) : Dec (Bytes × Bytes) :=
  if p.length < n then .error .outOfBounds else .ok (p.take n, p.drop n)

def getArray (n : Nat) (p : Bytes) : Dec (Vector UInt8 n × Bytes) :=
  if h : (p.take n).length = n then .ok (⟨(p.take n).toArray, h⟩, p.drop n) else .error .outOfBounds

def getUint32be (p : Bytes) : Dec (Nat × Bytes) := do
  let (bytes, p) ← getBytes 4 p
  .ok (getUintbe bytes, p)

def decodeVarint (p : Bytes) : Dec (Nat × Bytes) :=
  if p = [] then malformed
  else
    let len := getUvarintlen (p.getD 0 0)
    if p.length < len then malformed else .ok (getUvarint p, p.drop len)

def decodeVarintParam (p : Bytes) : Dec (Nat × Bytes) := do
  let (valuelen, p) ← decodeVarint p
  if p = [] then malformed
  else if p.length < valuelen then malformed
  else if getUvarintlen (p.getD 0 0) ≠ valuelen then malformed
  else .ok (getUvarint p, p.drop valuelen)

def decodeZeroParam (p : Bytes) : Dec (Unit × Bytes) :=
  if p = [] ∨ p.getD 0 0 ≠ 0 then malformed else .ok ((), p.drop 1)

def decodeCidParam (p : Bytes) : Dec (Bytes × Bytes) := do
  let (valuelen, p) ← decodeVarint p
  if (valuelen ≠ 0 ∧ valuelen < minCidlen) ∨ maxCidlen < valuelen ∨ p.length < valuelen then malformed
  -- the assertion of `ngtcp2_cid_init`
  else if maxCidlen < valuelen then .error .assertion
  else getBytes valuelen p

/-- An address of the preferred address; one that is not all zero becomes present. -/
def decodeSockaddr {n : Nat} (family : AddrFamily) (sa : Sockaddr n) (present : Bool) (p : Bytes) :
    Dec ((Sockaddr n × Bool) × Bytes) := do
  let (addr, p) ← getArray n p
  let (port, p) ← getArray 2 p
  if port ≠ .replicate 2 0 ∨ addr ≠ .replicate n 0 then .ok ((⟨family, port, addr⟩, true), p)
  else .ok ((⟨sa.family, port, addr⟩, present), p)

def decodePreferredAddr (preferred : PreferredAddr) (p : Bytes) : Dec (PreferredAddr × Bytes) := do
  let (valuelen, p) ← decodeVarint p
  if p.length < valuelen then malformed
  else
    let len := 4 + 2 + 16 + 2 + 1 + 16
    if valuelen < len then malformed
    else do
      let ((ipv4, ipv4Present), p) ← decodeSockaddr .inet preferred.ipv4 preferred.ipv4Present p
      let ((ipv6, ipv6Present), p) ← decodeSockaddr .inet6 preferred.ipv6 preferred.ipv6Present p
      let (b, p) ← getBytes 1 p
      let datalen := (b.getD 0 0).toNat
      if valuelen ≠ len + datalen ∨ maxCidlen < datalen ∨ datalen < minCidlen then malformed
      else do
        let (cid, p) ← getBytes datalen p
        let (token, p) ← getArray 16 p
        .ok (⟨cid, ipv4, ipv6, ipv4Present, ipv6Present, token⟩, p)

/-- The loop over the available versions, of which `n` are left. -/
def decodeVersions : Nat → Bytes → Dec (Unit × Bytes)
  | 0, p => .ok ((), p)
  | n + 1, p => do
      let (version, p) ← getUint32be p
      if version = 0 then malformed else decodeVersions n p

def decodeVersionInfo (info : VersionInfo) (p : Bytes) : Dec (VersionInfo × Bytes) := do
  let (valuelen, p) ← decodeVarint p
  if p.length < valuelen then malformed
  else if valuelen < 4 ∨ valuelen % 4 ≠ 0 then malformed
  else do
    let (chosenVersion, p) ← getUint32be p
    if chosenVersion = 0 then malformed
    else if 4 < valuelen then do
      let (_, rest) ← decodeVersions ((valuelen - 4) / 4) p
      .ok (⟨chosenVersion, p.take (valuelen - 4)⟩, rest)
    else .ok (⟨chosenVersion, info.availableVersions⟩, p)

def decodeTokenParam (p : Bytes) : Dec (Vector UInt8 16 × Bytes) := do
  let (valuelen, p) ← decodeVarint p
  if valuelen ≠ 16 then malformed
  else if p.length < 16 then malformed
  else getArray 16 p

def skipParam (p : Bytes) : Dec (Unit × Bytes) := do
  let (valuelen, p) ← decodeVarint p
  if p.length < valuelen then malformed else .ok ((), p.drop valuelen)

/-- The value of the varint parameter, which must not exceed `bound`. -/
def decodeBoundedParam (bound : Nat) (p : Bytes) : Dec (Nat × Bytes) := do
  let (value, p) ← decodeVarintParam p
  if bound < value then malformed else .ok (value, p)

/-- The timeout in nanoseconds. The product wraps around after the value has been saturated. -/
def decodeIdleTimeoutParam (p : Bytes) : Dec (Nat × Bytes) := do
  let (value, p) ← decodeVarintParam p
  let value := if value > uint64Max / milliseconds then uint64Max else value
  .ok (value * milliseconds % 2 ^ 64, p)

def decodeMaxAckDelayParam (p : Bytes) : Dec (Nat × Bytes) := do
  let (value, p) ← decodeVarintParam p
  if value ≥ 16384 then malformed else .ok (value * milliseconds, p)

/-- Stores what was read. -/
def store {α : Type} (x : Dec (α × Bytes)) (f : α → TransportParams) : Dec (TransportParams × Bytes) := do
  let (a, p) ← x
  .ok (f a, p)

/-- One case of the switch over the parameters. -/
def decodeParam (params : TransportParams) (id : TransportParamId) (p : Bytes) : Dec (TransportParams × Bytes) :=
  match id with
  | .initialMaxStreamDataBidiLocal =>
      store (decodeVarintParam p) fun value => { params with initialMaxStreamDataBidiLocal := value }
  | .initialMaxStreamDataBidiRemote =>
      store (decodeVarintParam p) fun value => { params with initialMaxStreamDataBidiRemote := value }
  | .initialMaxStreamDataUni =>
      store (decodeVarintParam p) fun value => { params with initialMaxStreamDataUni := value }
  | .initialMaxData => store (decodeVarintParam p) fun value => { params with initialMaxData := value }
  | .initialMaxStreamsBidi =>
      store (decodeBoundedParam maxStreams p) fun value => { params with initialMaxStreamsBidi := value }
  | .initialMaxStreamsUni =>
      store (decodeBoundedParam maxStreams p) fun value => { params with initialMaxStreamsUni := value }
  | .maxIdleTimeout => store (decodeIdleTimeoutParam p) fun value => { params with maxIdleTimeout := value }
  | .maxUdpPayloadSize => store (decodeVarintParam p) fun value => { params with maxUdpPayloadSize := value }
  | .statelessResetToken =>
      store (decodeTokenParam p) fun token =>
        { params with statelessResetToken := token, statelessResetTokenPresent := true }
  | .ackDelayExponent => store (decodeBoundedParam 20 p) fun value => { params with ackDelayExponent := value }
  | .preferredAddress =>
      store (decodePreferredAddr params.preferredAddr p) fun addr =>
        { params with preferredAddr := addr, preferredAddrPresent := true }
  | .disableActiveMigration => store (decodeZeroParam p) fun _ => { params with disableActiveMigration := true }
  | .originalDestinationConnectionId =>
      store (decodeCidParam p) fun cid => { params with originalDcid := cid, originalDcidPresent := true }
  | .retrySourceConnectionId =>
      store (decodeCidParam p) fun cid => { params with retryScid := cid, retryScidPresent := true }
  | .initialSourceConnectionId =>
      store (decodeCidParam p) fun cid => { params with initialScid := cid, initialScidPresent := true }
  | .maxAckDelay => store (decodeMaxAckDelayParam p) fun value => { params with maxAckDelay := value }
  | .activeConnectionIdLimit =>
      store (decodeVarintParam p) fun value => { params with activeConnectionIdLimit := value }
  | .maxDatagramFrameSize => store (decodeVarintParam p) fun value => { params with maxDatagramFrameSize := value }
  | .greaseQuicBit => store (decodeZeroParam p) fun _ => { params with greaseQuicBit := true }
  | .versionInformation =>
      store (decodeVersionInfo params.versionInfo p) fun info =>
        { params with versionInfo := info, versionInfoPresent := true }

def TransportParamId.ofType (n : Nat) : Option TransportParamId :=
  encodeOrder.find? (fun id => id.toNat = n)

/-- The body of the loop. -/
def decodeStep (params : TransportParams) (p : Bytes) : Dec (TransportParams × Bytes) := do
  let (paramType, p) ← decodeVarint p
  match TransportParamId.ofType paramType with
  | some id => decodeParam params id p
  | none => do
      let (_, p) ← skipParam p
      .ok (params, p)

end Reading

/-- The computation returns a value with the property, or the error of a malformed parameter; it neither
reads out of bounds nor fails an assertion. -/
abbrev Safe {α : Type} (P : α → Prop) (x : Dec α) : Prop :=
  Ends (· = .err .malformedTransportParam) P x

section Safety

variable {p : Bytes}

theorem malformed_safe {α : Type} (P : α → Prop) : Safe P (malformed : Dec α) :=
  rfl

theorem getBytes_safe {n : Nat} (h : n ≤ p.length) :
    Safe (fun r => r.1 = p.take n ∧ r.2 = p.drop n) (getBytes n p) := by
  rw [getBytes, if_neg (by omega)]
  exact ⟨rfl, rfl⟩

theorem getArray_safe {n : Nat} (h : n ≤ p.length) :
    Safe (fun r => r.1.toList = p.take n ∧ r.2 = p.drop n) (getArray n p) := by
  rw [getArray, dif_pos (List.length_take_of_le h)]
  exact ⟨rfl, rfl⟩

theorem getUint32be_safe (h : 4 ≤ p.length) :
    Safe (fun r => r.1 < 2 ^ 32 ∧ p.take 4 = putUintbe 4 r.1 ∧ r.2 = p.drop 4) (getUint32be p) := by
  apply Ends.bind (getBytes_safe h)
  rintro ⟨bytes, rest⟩ ⟨rfl, rfl⟩
  have hlen : (p.take 4).length = 4 := List.length_take_of_le h
  refine ⟨?_, ?_, rfl⟩
  · have hlt := Pkt.getUintbe_lt (p.take 4)
    rw [hlen] at hlt
    exact hlt
  · have heq := Pkt.putUintbe_getUintbe (p.take 4)
    rw [hlen] at heq
    exact heq.symm

theorem decodeVarint_safe (p : Bytes) :
    Safe (fun r => r.1 < 2 ^ 62 ∧ r.2 <:+ p ∧ r.2.length < p.length) (decodeVarint p) := by
  rw [decodeVarint]
  split
  · exact malformed_safe _
  · rename_i hp
    dsimp only
    split
    · exact malformed_safe _
    · rename_i hlen
      have hpos := Pkt.getUvarintlen_pos (p.getD 0 0)
      have hlt : 0 < p.length := List.length_pos_iff.mpr hp
      refine ⟨Pkt.getUvarint_lt p, List.drop_suffix _ p, ?_⟩
      dsimp only
      rw [List.length_drop]
      omega

theorem decodeVarintParam_safe (p : Bytes) :
    Safe (fun r => r.1 < 2 ^ 62 ∧ r.2 <:+ p) (decodeVarintParam p) := by
  apply Ends.bind (decodeVarint_safe p)
  rintro ⟨valuelen, q⟩ ⟨-, hq, -⟩
  dsimp only at hq ⊢
  split_ifs
  · exact malformed_safe _
  · exact malformed_safe _
  · exact malformed_safe _
  · exact ⟨Pkt.getUvarint_lt q, (List.drop_suffix _ q).trans hq⟩

theorem decodeBoundedParam_safe (bound : Nat) (p : Bytes) :
    Safe (fun r => r.1 ≤ bound ∧ r.2 <:+ p) (decodeBoundedParam bound p) := by
  apply Ends.bind (decodeVarintParam_safe p)
  rintro ⟨value, q⟩ ⟨-, hq⟩
  dsimp only at hq ⊢
  split_ifs with hbound
  · exact malformed_safe _
  · exact ⟨Nat.not_lt.mp hbound, hq⟩

theorem decodeIdleTimeoutParam_safe (p : Bytes) :
    Safe (fun r => r.1 < 2 ^ 64 ∧ r.2 <:+ p) (decodeIdleTimeoutParam p) := by
  apply Ends.bind (decodeVarintParam_safe p)
  rintro ⟨value, q⟩ ⟨-, hq⟩
  exact ⟨Nat.mod_lt _ (Nat.two_pow_pos 64), hq⟩

theorem decodeMaxAckDelayParam_safe (p : Bytes) :
    Safe (fun r => (∃ n, n < 16384 ∧ r.1 = n * milliseconds) ∧ r.2 <:+ p) (decodeMaxAckDelayParam p) := by
  apply Ends.bind (decodeVarintParam_safe p)
  rintro ⟨value, q⟩ ⟨-, hq⟩
  dsimp only at hq ⊢
  split_ifs with hbound
  · exact malformed_safe _
  · exact ⟨⟨value, Nat.not_le.mp hbound, rfl⟩, hq⟩

theorem decodeZeroParam_safe (p : Bytes) : Safe (fun r => r.2 <:+ p) (decodeZeroParam p) := by
  rw [decodeZeroParam]
  split_ifs
  · exact malformed_safe _
  · exact List.drop_suffix 1 p

theorem decodeCidParam_safe (p : Bytes) :
    Safe (fun r => r.1.length ≤ maxCidlen ∧ r.2 <:+ p) (decodeCidParam p) := by
  apply Ends.bind (decodeVarint_safe p)
  rintro ⟨valuelen, q⟩ ⟨-, hq, -⟩
  dsimp only at hq ⊢
  split_ifs with hmalformed hassert
  · exact malformed_safe _
  · exact absurd (Or.inr (Or.inl hassert)) hmalformed
  · push Not at hmalformed
    apply Ends.mono (getBytes_safe hmalformed.2.2)
    rintro ⟨cid, rest⟩ ⟨rfl, rfl⟩
    exact ⟨(List.length_take_le _ q).trans hmalformed.2.1, (List.drop_suffix _ q).trans hq⟩

theorem decodeTokenParam_safe (p : Bytes) : Safe (fun r => r.2 <:+ p) (decodeTokenParam p) := by
  apply Ends.bind (decodeVarint_safe p)
  rintro ⟨valuelen, q⟩ ⟨-, hq, -⟩
  dsimp only at hq ⊢
  split_ifs with hvaluelen hlen
  · exact malformed_safe _
  · exact malformed_safe _
  · apply Ends.mono (getArray_safe (Nat.not_lt.mp hlen))
    rintro ⟨token, rest⟩ ⟨-, rfl⟩
    exact (List.drop_suffix _ q).trans hq

theorem skipParam_safe (p : Bytes) : Safe (fun r => r.2 <:+ p) (skipParam p) := by
  apply Ends.bind (decodeVarint_safe p)
  rintro ⟨valuelen, q⟩ ⟨-, hq, -⟩
  dsimp only at hq ⊢
  split_ifs
  · exact malformed_safe _
  · exact (List.drop_suffix _ q).trans hq

/-- What a received address looks like; an address that has been present once stays so. -/
structure Sockaddr.Received {n : Nat} (family : AddrFamily) (sa : Sockaddr n) (present : Bool) : Prop where
  family_eq : present = true → sa.family = family
  absent : present = false → sa = {}

theorem decodeSockaddr_safe {n : Nat} {family : AddrFamily} {sa : Sockaddr n} {present : Bool}
    (hlen : n + 2 ≤ p.length) :
    Safe (fun r => (sa.Received family present → r.1.1.Received family r.1.2) ∧ r.2 = p.drop (n + 2))
      (decodeSockaddr family sa present p) := by
  apply Ends.bind (getArray_safe (n := n) (by omega))
  rintro ⟨addr, q⟩ ⟨-, rfl⟩
  apply Ends.bind (getArray_safe (n := 2) (by rw [List.length_drop]; omega))
  rintro ⟨port, q⟩ ⟨-, rfl⟩
  dsimp only
  rw [List.drop_drop]
  split_ifs with hzero
  · exact ⟨fun _ => ⟨fun _ => rfl, fun h => absurd h (by simp)⟩, rfl⟩
  · push Not at hzero
    obtain ⟨rfl, rfl⟩ := hzero
    refine ⟨fun hsa => ⟨fun h => hsa.family_eq h, fun h => ?_⟩, rfl⟩
    have habsent := hsa.absent h
    rw [habsent]

structure PreferredAddr.Received (addr : PreferredAddr) : Prop where
  ipv4 : addr.ipv4.Received .inet addr.ipv4Present
  ipv6 : addr.ipv6.Received .inet6 addr.ipv6Present

theorem decodePreferredAddr_safe (addr : PreferredAddr) (p : Bytes) :
    Safe (fun r => (addr.Received → r.1.Received) ∧ (minCidlen ≤ r.1.cid.length ∧ r.1.cid.length ≤ maxCidlen) ∧
      r.2 <:+ p) (decodePreferredAddr addr p) := by
  apply Ends.bind (decodeVarint_safe p)
  rintro ⟨valuelen, q⟩ ⟨-, hq, -⟩
  dsimp only at hq ⊢
  split_ifs with hvaluelen hlen
  · exact malformed_safe _
  · exact malformed_safe _
  · apply Ends.bind (decodeSockaddr_safe (n := 4) (by omega))
    rintro ⟨⟨ipv4, ipv4Present⟩, q₁⟩ ⟨hipv4, rfl⟩
    apply Ends.bind (decodeSockaddr_safe (n := 16) (by rw [List.length_drop]; omega))
    rintro ⟨⟨ipv6, ipv6Present⟩, q₂⟩ ⟨hipv6, rfl⟩
    apply Ends.bind (getBytes_safe (by rw [List.length_drop, List.length_drop]; omega))
    rintro ⟨b, q₃⟩ ⟨rfl, rfl⟩
    dsimp only
    simp only [List.drop_drop]
    split_ifs with hcid
    · exact malformed_safe _
    · push Not at hcid
      obtain ⟨hlen', hmax, hmin⟩ := hcid
      apply Ends.bind (getBytes_safe (by rw [List.length_drop]; omega))
      rintro ⟨cid, q₄⟩ ⟨rfl, rfl⟩
      apply Ends.bind (getArray_safe (n := 16) (by rw [List.length_drop, List.length_drop]; omega))
      rintro ⟨token, q₅⟩ ⟨-, rfl⟩
      have hcidlen := List.length_take_of_le (l := q.drop (4 + 2 + (16 + 2) + 1))
        (i := (((q.drop (4 + 2 + (16 + 2))).take 1).getD 0 0).toNat) (by rw [List.length_drop]; omega)
      refine ⟨fun haddr => ⟨hipv4 haddr.ipv4, hipv6 haddr.ipv6⟩, ⟨?_, ?_⟩, ?_⟩
      · dsimp only
        rw [hcidlen]
        exact hmin
      · dsimp only
        rw [hcidlen]
        exact hmax
      · simp only [List.drop_drop]
        exact (List.drop_suffix _ q).trans hq

theorem flatMap_putUintbe_length (versions : List Nat) :
    (versions.flatMap (putUintbe 4)).length = 4 * versions.length := by
  induction versions with
  | nil => rfl
  | cons v versions ih =>
      rw [List.flatMap_cons, List.length_append, Pkt.putUintbe_length, ih, List.length_cons]
      omega

theorem decodeVersions_safe {n : Nat} (h : 4 * n ≤ p.length) :
    Safe (fun r => r.2 = p.drop (4 * n) ∧
      ∃ versions : List Nat, (∀ v ∈ versions, 0 < v ∧ v < 2 ^ 32) ∧ p.take (4 * n) = versions.flatMap (putUintbe 4))
      (decodeVersions n p) := by
  induction n generalizing p with
  | zero => exact ⟨rfl, [], by simp, rfl⟩
  | succ n ih =>
      apply Ends.bind (getUint32be_safe (by omega))
      rintro ⟨version, q⟩ ⟨hlt, hbytes, rfl⟩
      dsimp only at hlt hbytes ⊢
      split_ifs with hversion
      · exact malformed_safe _
      · apply Ends.mono (ih (by rw [List.length_drop]; omega))
        rintro ⟨-, q⟩ ⟨rfl, versions, hversions, hq⟩
        refine ⟨?_, version :: versions, ?_, ?_⟩
        · dsimp only
          rw [List.drop_drop, Nat.mul_succ, Nat.add_comm]
        · intro v hv
          obtain rfl | hv := List.mem_cons.mp hv
          · exact ⟨Nat.pos_of_ne_zero hversion, hlt⟩
          · exact hversions v hv
        · rw [Nat.mul_succ, Nat.add_comm, List.take_add, hbytes, hq, List.flatMap_cons]

/-- Available versions that were received before stay when a later parameter has none. -/
theorem decodeVersionInfo_safe (info : VersionInfo) (p : Bytes) :
    Safe (fun r => (info.Valid ∨ info = {} → r.1.Valid) ∧ r.2 <:+ p) (decodeVersionInfo info p) := by
  apply Ends.bind (decodeVarint_safe p)
  rintro ⟨valuelen, q⟩ ⟨hlt, hq, -⟩
  dsimp only at hlt hq ⊢
  by_cases hvaluelen : q.length < valuelen
  · rw [if_pos hvaluelen]
    exact malformed_safe _
  by_cases hbad : valuelen < 4 ∨ valuelen % 4 ≠ 0
  · rw [if_neg hvaluelen, if_pos hbad]
    exact malformed_safe _
  · rw [if_neg hvaluelen, if_neg hbad]
    push Not at hbad
    obtain ⟨hfour, hmod⟩ := hbad
    apply Ends.bind (getUint32be_safe (by omega))
    rintro ⟨chosen, q₁⟩ ⟨hchosen, -, rfl⟩
    dsimp only at hchosen ⊢
    split_ifs with hzero hmore
    · exact malformed_safe _
    · apply Ends.bind (decodeVersions_safe (n := (valuelen - 4) / 4) (by rw [List.length_drop]; omega))
      rintro ⟨-, q₂⟩ ⟨rfl, versions, hversions, htake⟩
      have hbytes : 4 * ((valuelen - 4) / 4) = valuelen - 4 := by omega
      rw [hbytes] at htake
      refine ⟨fun _ => ⟨Nat.pos_of_ne_zero hzero, hchosen, ⟨versions, hversions, htake⟩, ?_⟩, ?_⟩
      · dsimp only [versionInfolen]
        rw [List.length_take]
        omega
      · dsimp only
        rw [List.drop_drop]
        exact (List.drop_suffix _ q).trans hq
    · refine ⟨fun hinfo => ?_, (List.drop_suffix _ q).trans hq⟩
      obtain hvalid | rfl := hinfo
      · exact ⟨Nat.pos_of_ne_zero hzero, hchosen, hvalid.available, hvalid.len_lt⟩
      · exact ⟨Nat.pos_of_ne_zero hzero, hchosen, ⟨[], by simp, rfl⟩, by simp [versionInfolen]⟩

/-- What the parameters look like that were received: they are in range, data that is not present is as
in the beginning, and only the two addresses may be stale. -/
structure TransportParams.Received (params : TransportParams) : Prop extends params.InRange where
  preferredCid_pos : params.preferredAddrPresent → minCidlen ≤ params.preferredAddr.cid.length
  preferredAddr : params.preferredAddr.Received
  preferredAddr_absent : params.preferredAddrPresent = false → params.preferredAddr = {}
  originalDcid_absent : params.originalDcidPresent = false → params.originalDcid = []
  initialScid_absent : params.initialScidPresent = false → params.initialScid = []
  retryScid_absent : params.retryScidPresent = false → params.retryScid = []
  token_absent : params.statelessResetTokenPresent = false → params.statelessResetToken = .replicate 16 0
  versionInfo_absent : params.versionInfoPresent = false → params.versionInfo = {}

theorem TransportParams.Received.versionInfo_valid {params : TransportParams} (h : params.Received) :
    params.versionInfo.Valid ∨ params.versionInfo = {} := by
  cases hpresent : params.versionInfoPresent with
  | true => exact Or.inl (h.versionInfo hpresent)
  | false => exact Or.inr (h.versionInfo_absent hpresent)

theorem store_safe {α : Type} {params : TransportParams} {x : Dec (α × Bytes)} {P : α → Prop}
    {f : α → TransportParams} (hx : Safe (fun r => P r.1 ∧ r.2 <:+ p) x)
    (hf : ∀ a, P a → params.Received → (f a).Received) :
    Safe (fun r => (params.Received → r.1.Received) ∧ r.2 <:+ p) (store x f) := by
  apply Ends.bind hx
  rintro ⟨a, q⟩ ⟨ha, hq⟩
  exact ⟨hf a ha, hq⟩

theorem decodeParam_safe (params : TransportParams) (id : TransportParamId) (p : Bytes) :
    Safe (fun r => (params.Received → r.1.Received) ∧ r.2 <:+ p) (decodeParam params id p) := by
  rw [decodeParam.eq_def]
  cases id with
  | initialMaxStreamDataBidiLocal =>
      apply store_safe (P := (· < 2 ^ 62)) (decodeVarintParam_safe p)
      intro value hvalue h
      exact { h with initialMaxStreamDataBidiLocal := hvalue }
  | initialMaxStreamDataBidiRemote =>
      apply store_safe (P := (· < 2 ^ 62)) (decodeVarintParam_safe p)
      intro value hvalue h
      exact { h with initialMaxStreamDataBidiRemote := hvalue }
  | initialMaxStreamDataUni =>
      apply store_safe (P := (· < 2 ^ 62)) (decodeVarintParam_safe p)
      intro value hvalue h
      exact { h with initialMaxStreamDataUni := hvalue }
  | initialMaxData =>
      apply store_safe (P := (· < 2 ^ 62)) (decodeVarintParam_safe p)
      intro value hvalue h
      exact { h with initialMaxData := hvalue }
  | initialMaxStreamsBidi =>
      apply store_safe (P := (· ≤ maxStreams)) (decodeBoundedParam_safe _ p)
      intro value hvalue h
      exact { h with initialMaxStreamsBidi := hvalue }
  | initialMaxStreamsUni =>
      apply store_safe (P := (· ≤ maxStreams)) (decodeBoundedParam_safe _ p)
      intro value hvalue h
      exact { h with initialMaxStreamsUni := hvalue }
  | maxIdleTimeout =>
      apply store_safe (P := (· < 2 ^ 64)) (decodeIdleTimeoutParam_safe p)
      intro value hvalue h
      exact { h with maxIdleTimeout := hvalue }
  | maxUdpPayloadSize =>
      apply store_safe (P := (· < 2 ^ 62)) (decodeVarintParam_safe p)
      intro value hvalue h
      exact { h with maxUdpPayloadSize := hvalue }
  | ackDelayExponent =>
      apply store_safe (P := (· ≤ 20)) (decodeBoundedParam_safe _ p)
      intro value hvalue h
      exact { h with ackDelayExponent := hvalue }
  | maxAckDelay =>
      apply store_safe (P := fun value => ∃ n, n < 16384 ∧ value = n * milliseconds) (decodeMaxAckDelayParam_safe p)
      intro value hvalue h
      exact { h with maxAckDelay := hvalue }
  | activeConnectionIdLimit =>
      apply store_safe (P := (· < 2 ^ 62)) (decodeVarintParam_safe p)
      intro value hvalue h
      exact { h with activeConnectionIdLimit := hvalue }
  | maxDatagramFrameSize =>
      apply store_safe (P := (· < 2 ^ 62)) (decodeVarintParam_safe p)
      intro value hvalue h
      exact { h with maxDatagramFrameSize := hvalue }
  | originalDestinationConnectionId =>
      apply store_safe (P := fun cid => cid.length ≤ maxCidlen) (decodeCidParam_safe p)
      intro cid hcid h
      exact { h with originalDcid := fun _ => hcid, originalDcid_absent := fun h => absurd h.symm Bool.false_ne_true }
  | retrySourceConnectionId =>
      apply store_safe (P := fun cid => cid.length ≤ maxCidlen) (decodeCidParam_safe p)
      intro cid hcid h
      exact { h with retryScid := fun _ => hcid, retryScid_absent := fun h => absurd h.symm Bool.false_ne_true }
  | initialSourceConnectionId =>
      apply store_safe (P := fun cid => cid.length ≤ maxCidlen) (decodeCidParam_safe p)
      intro cid hcid h
      exact { h with initialScid := fun _ => hcid, initialScid_absent := fun h => absurd h.symm Bool.false_ne_true }
  | statelessResetToken =>
      have hread : Safe (fun r => True ∧ r.2 <:+ p) (decodeTokenParam p) :=
        Ends.mono (decodeTokenParam_safe p) fun _ h => ⟨trivial, h⟩
      apply store_safe (P := fun _ => True) hread
      intro token _ h
      exact { h with token_absent := fun h => absurd h.symm Bool.false_ne_true }
  | disableActiveMigration =>
      have hread : Safe (fun r => True ∧ r.2 <:+ p) (decodeZeroParam p) :=
        Ends.mono (decodeZeroParam_safe p) fun _ h => ⟨trivial, h⟩
      apply store_safe (P := fun _ => True) hread
      intro _ _ h
      exact { h with }
  | greaseQuicBit =>
      have hread : Safe (fun r => True ∧ r.2 <:+ p) (decodeZeroParam p) :=
        Ends.mono (decodeZeroParam_safe p) fun _ h => ⟨trivial, h⟩
      apply store_safe (P := fun _ => True) hread
      intro _ _ h
      exact { h with }
  | preferredAddress =>
      have hread := Ends.mono (decodePreferredAddr_safe params.preferredAddr p) fun r h => and_assoc.mpr h
      apply store_safe (P := fun addr => (params.preferredAddr.Received → addr.Received) ∧
        minCidlen ≤ addr.cid.length ∧ addr.cid.length ≤ maxCidlen) hread
      intro addr haddr h
      exact { h with
          preferredCid := fun _ => haddr.2.2
          preferredCid_pos := fun _ => haddr.2.1
          preferredAddr := haddr.1 h.preferredAddr
          preferredAddr_absent := fun h => absurd h.symm Bool.false_ne_true }
  | versionInformation =>
      apply store_safe (P := fun info => params.versionInfo.Valid ∨ params.versionInfo = {} → info.Valid)
        (decodeVersionInfo_safe params.versionInfo p)
      intro info hinfo h
      exact { h with versionInfo := fun _ => hinfo h.versionInfo_valid, versionInfo_absent := fun h => absurd h.symm Bool.false_ne_true }

theorem decodeStep_safe (params : TransportParams) (p : Bytes) :
    Safe (fun r => (params.Received → r.1.Received) ∧ r.2 <:+ p ∧ r.2.length < p.length) (decodeStep params p) := by
  apply Ends.bind (decodeVarint_safe p)
  rintro ⟨paramType, q⟩ ⟨-, hq, hlt⟩
  dsimp only at hq hlt ⊢
  cases TransportParamId.ofType paramType with
  | some id =>
      apply Ends.mono (decodeParam_safe params id q)
      intro r hr
      exact ⟨hr.1, hr.2.trans hq, Nat.lt_of_le_of_lt hr.2.length_le hlt⟩
  | none =>
      apply Ends.bind (skipParam_safe q)
      rintro ⟨u, rest⟩ hrest
      exact ⟨fun h => h, List.IsSuffix.trans hrest hq, Nat.lt_of_le_of_lt (List.IsSuffix.length_le hrest) hlt⟩

end Safety

theorem decodeStep_consumes : Consumes decodeStep := by
  intro params p params' rest h
  have hsafe := decodeStep_safe params p
  rw [h] at hsafe
  exact hsafe.2.2

/-- `ngtcp2_transport_params_decode_versioned` -/
def decode (data : Bytes) : Dec TransportParams := do
  let (params, p) ← readAll decodeStep decodeStep_consumes 2 transportParamsDefault data
  if p.length ≠ 0 then malformed else .ok params

theorem transportParamsDefault_received : transportParamsDefault.Received where
  initialMaxStreamDataBidiLocal := by decide
  initialMaxStreamDataBidiRemote := by decide
  initialMaxStreamDataUni := by decide
  initialMaxData := by decide
  initialMaxStreamsBidi := by decide
  initialMaxStreamsUni := by decide
  maxIdleTimeout := by decide
  maxUdpPayloadSize := by decide
  activeConnectionIdLimit := by decide
  ackDelayExponent := by decide
  maxAckDelay := ⟨25, by decide, rfl⟩
  maxDatagramFrameSize := by decide
  originalDcid := fun h => absurd h Bool.false_ne_true
  initialScid := fun h => absurd h Bool.false_ne_true
  retryScid := fun h => absurd h Bool.false_ne_true
  preferredCid := fun h => absurd h Bool.false_ne_true
  versionInfo := fun h => absurd h Bool.false_ne_true
  preferredCid_pos := fun h => absurd h Bool.false_ne_true
  preferredAddr := ⟨⟨fun h => absurd h Bool.false_ne_true, fun _ => rfl⟩, ⟨fun h => absurd h Bool.false_ne_true, fun _ => rfl⟩⟩
  preferredAddr_absent := fun _ => rfl
  originalDcid_absent := fun _ => rfl
  initialScid_absent := fun _ => rfl
  retryScid_absent := fun _ => rfl
  token_absent := fun _ => rfl
  versionInfo_absent := fun _ => rfl

/-- For all data the decoder returns parameters, or the error. -/
theorem decode_safe (data : Bytes) : Safe TransportParams.Received (decode data) := by
  apply Ends.bind (Lib.Records.readAll_ends (fun params _ => params.Received) ?_ transportParamsDefault_received)
  · rintro ⟨params, p⟩ ⟨hparams, -⟩
    dsimp only
    split_ifs
    · exact malformed_safe _
    · exact hparams
  · intro params p hparams _
    exact Ends.mono (decodeStep_safe params p) fun r hr => hr.1 hparams

end Zngtcp2.Tp
