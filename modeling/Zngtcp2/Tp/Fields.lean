import Zngtcp2.Tp.Decode

namespace Zngtcp2.Tp

open Pkt (Bytes Varint Dec putUintbe)

section Varints

theorem putUvarint_varint (n : Varint) : putUvarint n.1 = .ok (Pkt.putUvarint n) := by
  rw [putUvarint, dif_pos n.2]

theorem putUvarintlen_varint (n : Varint) : putUvarintlen n.1 = .ok (Pkt.putUvarintlen n) := by
  rw [putUvarintlen, dif_pos n.2]

theorem decodeVarint_putUvarint (n : Varint) (rest : Bytes) :
    decodeVarint (Pkt.putUvarint n ++ rest) = .ok (n.1, rest) := by
  have hpos := Pkt.putUvarintlen_pos n
  have hlen := Pkt.putUvarint_length n
  have hne : Pkt.putUvarint n ++ rest ≠ [] := by
    apply List.ne_nil_of_length_pos
    rw [List.length_append]
    omega
  rw [decodeVarint, if_neg hne]
  dsimp only
  rw [Pkt.getUvarintlen_putUvarint, if_neg, Pkt.getUvarint_putUvarint]
  · rw [← hlen, List.drop_left]
  · rw [List.length_append]
    omega

theorem putUvarintlen_lt (n : Varint) : Pkt.putUvarintlen n < 2 ^ 62 := by
  rw [Pkt.putUvarintlen]
  split_ifs <;> omega

/-- The length of a varint as a varint. -/
def lenVarint (n : Varint) : Varint :=
  ⟨Pkt.putUvarintlen n, putUvarintlen_lt n⟩

theorem decodeVarintParam_putUvarint (n : Varint) (rest : Bytes) :
    decodeVarintParam (Pkt.putUvarint (lenVarint n) ++ Pkt.putUvarint n ++ rest) = .ok (n.1, rest) := by
  have hpos := Pkt.putUvarintlen_pos n
  have hlen := Pkt.putUvarint_length n
  have hne : Pkt.putUvarint n ++ rest ≠ [] := by
    apply List.ne_nil_of_length_pos
    rw [List.length_append]
    omega
  rw [decodeVarintParam, List.append_assoc, decodeVarint_putUvarint]
  simp only [bind, Except.bind]
  rw [if_neg hne, Pkt.getUvarintlen_putUvarint, if_neg, if_neg, Pkt.getUvarint_putUvarint]
  · rw [show (lenVarint n).1 = (Pkt.putUvarint n).length from hlen.symm, List.drop_left]
  · exact fun h => h rfl
  · rw [show (lenVarint n).1 = (Pkt.putUvarint n).length from hlen.symm, List.length_append]
    omega

theorem getBytes_append {n : Nat} {bs : Bytes} (h : bs.length = n) (rest : Bytes) :
    getBytes n (bs ++ rest) = .ok (bs, rest) := by
  subst h
  rw [getBytes, if_neg (by rw [List.length_append]; omega), List.take_left, List.drop_left]

theorem getArray_append {n : Nat} (v : Vector UInt8 n) (rest : Bytes) :
    getArray n (v.toList ++ rest) = .ok (v, rest) := by
  have hlen : v.toList.length = n := v.length_toList
  have htake : (v.toList ++ rest).take n = v.toList := by
    rw [List.take_append_of_le_length (Nat.le_of_eq hlen.symm), List.take_of_length_le (Nat.le_of_eq hlen)]
  have hdrop : (v.toList ++ rest).drop n = rest := by
    rw [List.drop_append_of_le_length (Nat.le_of_eq hlen.symm), List.drop_of_length_le (Nat.le_of_eq hlen),
      List.nil_append]
  rw [getArray, dif_pos (by rw [htake, hlen])]
  simp only [htake, hdrop]
  rfl

theorem getUint32be_append {n : Nat} (h : n < 2 ^ 32) (rest : Bytes) :
    getUint32be (putUintbe 4 n ++ rest) = .ok (n, rest) := by
  rw [getUint32be, getBytes_append (Pkt.putUintbe_length 4 n)]
  simp only [bind, Except.bind]
  rw [Pkt.getUintbe_putUintbe, Nat.mod_eq_of_lt (Nat.lt_of_lt_of_eq h (by norm_num))]

end Varints

section Adopting

/-- `x` for the parameter `of`, and `y` for the others. -/
def TransportParamId.pick {α : Type} (id of : TransportParamId) (x y : α) : α :=
  if id = of then x else y

theorem TransportParamId.pick_comm {α : Type} {id id' : TransportParamId} (h : id ≠ id') (of : TransportParamId)
    (x y z : α) : id'.pick of x (id.pick of y z) = id.pick of y (id'.pick of x z) := by
  rw [pick, pick, pick, pick]
  by_cases hid : id = of
  · rw [if_neg (fun hid' => h (hid.trans hid'.symm)), if_pos hid, if_pos hid]
  · rw [if_neg hid, if_neg hid]

/-- The parameters, with what the parameter `id` is about as in `params`. -/
def TransportParams.adopt (q params : TransportParams) (id : TransportParamId) : TransportParams where
  preferredAddr := id.pick .preferredAddress params.preferredAddr q.preferredAddr
  originalDcid := id.pick .originalDestinationConnectionId params.originalDcid q.originalDcid
  initialScid := id.pick .initialSourceConnectionId params.initialScid q.initialScid
  retryScid := id.pick .retrySourceConnectionId params.retryScid q.retryScid
  initialMaxStreamDataBidiLocal := id.pick .initialMaxStreamDataBidiLocal params.initialMaxStreamDataBidiLocal q.initialMaxStreamDataBidiLocal
  initialMaxStreamDataBidiRemote := id.pick .initialMaxStreamDataBidiRemote params.initialMaxStreamDataBidiRemote q.initialMaxStreamDataBidiRemote
  initialMaxStreamDataUni := id.pick .initialMaxStreamDataUni params.initialMaxStreamDataUni q.initialMaxStreamDataUni
  initialMaxData := id.pick .initialMaxData params.initialMaxData q.initialMaxData
  initialMaxStreamsBidi := id.pick .initialMaxStreamsBidi params.initialMaxStreamsBidi q.initialMaxStreamsBidi
  initialMaxStreamsUni := id.pick .initialMaxStreamsUni params.initialMaxStreamsUni q.initialMaxStreamsUni
  maxIdleTimeout := id.pick .maxIdleTimeout params.maxIdleTimeout q.maxIdleTimeout
  maxUdpPayloadSize := id.pick .maxUdpPayloadSize params.maxUdpPayloadSize q.maxUdpPayloadSize
  activeConnectionIdLimit := id.pick .activeConnectionIdLimit params.activeConnectionIdLimit q.activeConnectionIdLimit
  ackDelayExponent := id.pick .ackDelayExponent params.ackDelayExponent q.ackDelayExponent
  maxAckDelay := id.pick .maxAckDelay params.maxAckDelay q.maxAckDelay
  maxDatagramFrameSize := id.pick .maxDatagramFrameSize params.maxDatagramFrameSize q.maxDatagramFrameSize
  statelessResetTokenPresent := id.pick .statelessResetToken params.statelessResetTokenPresent q.statelessResetTokenPresent
  disableActiveMigration := id.pick .disableActiveMigration params.disableActiveMigration q.disableActiveMigration
  originalDcidPresent := id.pick .originalDestinationConnectionId params.originalDcidPresent q.originalDcidPresent
  initialScidPresent := id.pick .initialSourceConnectionId params.initialScidPresent q.initialScidPresent
  retryScidPresent := id.pick .retrySourceConnectionId params.retryScidPresent q.retryScidPresent
  preferredAddrPresent := id.pick .preferredAddress params.preferredAddrPresent q.preferredAddrPresent
  statelessResetToken := id.pick .statelessResetToken params.statelessResetToken q.statelessResetToken
  greaseQuicBit := id.pick .greaseQuicBit params.greaseQuicBit q.greaseQuicBit
  versionInfo := id.pick .versionInformation params.versionInfo q.versionInfo
  versionInfoPresent := id.pick .versionInformation params.versionInfoPresent q.versionInfoPresent

theorem TransportParams.adopt_comm (q a b : TransportParams) {id id' : TransportParamId} (h : id ≠ id') :
    (q.adopt a id).adopt b id' = (q.adopt b id').adopt a id := by
  simp only [adopt, TransportParamId.pick_comm h]

theorem mem_encodeOrder (id : TransportParamId) : id ∈ encodeOrder := by
  cases id <;> decide

/-- A component of the parameters that `of` is about is adopted as soon as the order goes through `of`. -/
theorem TransportParams.foldl_adopt {α : Type} {get : TransportParams → α} {params : TransportParams}
    {of : TransportParamId} (hget : ∀ (q : TransportParams) (id : TransportParamId), get (q.adopt params id) = id.pick of (get params) (get q))
    (ids : List TransportParamId) (q : TransportParams) :
    get (ids.foldl (fun q id => q.adopt params id) q) = if of ∈ ids then get params else get q := by
  induction ids generalizing q with
  | nil => rw [List.foldl_nil, if_neg List.not_mem_nil]
  | cons id ids ih =>
      rw [List.foldl_cons, ih, hget, TransportParamId.pick]
      by_cases hids : of ∈ ids
      · rw [if_pos hids, if_pos (List.mem_cons_of_mem id hids)]
      · rw [if_neg hids]
        by_cases hid : id = of
        · rw [if_pos hid, if_pos (List.mem_cons.mpr (Or.inl hid.symm))]
        · rw [if_neg hid, if_neg]
          intro hmem
          obtain rfl | hmem := List.mem_cons.mp hmem
          · exact hid rfl
          · exact hids hmem

/-- The order goes through everything that the parameters consist of. -/
theorem TransportParams.adopt_encodeOrder (q params : TransportParams) :
    encodeOrder.foldl (fun q id => q.adopt params id) q = params := by
  have hfield : ∀ {α : Type} (get : TransportParams → α) (of : TransportParamId),
      (∀ (q : TransportParams) (id : TransportParamId), get (q.adopt params id) = id.pick of (get params) (get q)) →
      get (encodeOrder.foldl (fun q id => q.adopt params id) q) = get params := by
    intro α get of hget
    rw [TransportParams.foldl_adopt hget, if_pos (mem_encodeOrder of)]
  apply TransportParams.ext
  · exact hfield (·.preferredAddr) .preferredAddress fun _ _ => rfl
  · exact hfield (·.originalDcid) .originalDestinationConnectionId fun _ _ => rfl
  · exact hfield (·.initialScid) .initialSourceConnectionId fun _ _ => rfl
  · exact hfield (·.retryScid) .retrySourceConnectionId fun _ _ => rfl
  · exact hfield (·.initialMaxStreamDataBidiLocal) .initialMaxStreamDataBidiLocal fun _ _ => rfl
  · exact hfield (·.initialMaxStreamDataBidiRemote) .initialMaxStreamDataBidiRemote fun _ _ => rfl
  · exact hfield (·.initialMaxStreamDataUni) .initialMaxStreamDataUni fun _ _ => rfl
  · exact hfield (·.initialMaxData) .initialMaxData fun _ _ => rfl
  · exact hfield (·.initialMaxStreamsBidi) .initialMaxStreamsBidi fun _ _ => rfl
  · exact hfield (·.initialMaxStreamsUni) .initialMaxStreamsUni fun _ _ => rfl
  · exact hfield (·.maxIdleTimeout) .maxIdleTimeout fun _ _ => rfl
  · exact hfield (·.maxUdpPayloadSize) .maxUdpPayloadSize fun _ _ => rfl
  · exact hfield (·.activeConnectionIdLimit) .activeConnectionIdLimit fun _ _ => rfl
  · exact hfield (·.ackDelayExponent) .ackDelayExponent fun _ _ => rfl
  · exact hfield (·.maxAckDelay) .maxAckDelay fun _ _ => rfl
  · exact hfield (·.maxDatagramFrameSize) .maxDatagramFrameSize fun _ _ => rfl
  · exact hfield (·.statelessResetTokenPresent) .statelessResetToken fun _ _ => rfl
  · exact hfield (·.disableActiveMigration) .disableActiveMigration fun _ _ => rfl
  · exact hfield (·.originalDcidPresent) .originalDestinationConnectionId fun _ _ => rfl
  · exact hfield (·.initialScidPresent) .initialSourceConnectionId fun _ _ => rfl
  · exact hfield (·.retryScidPresent) .retrySourceConnectionId fun _ _ => rfl
  · exact hfield (·.preferredAddrPresent) .preferredAddress fun _ _ => rfl
  · exact hfield (·.statelessResetToken) .statelessResetToken fun _ _ => rfl
  · exact hfield (·.greaseQuicBit) .greaseQuicBit fun _ _ => rfl
  · exact hfield (·.versionInfo) .versionInformation fun _ _ => rfl
  · exact hfield (·.versionInfoPresent) .versionInformation fun _ _ => rfl

theorem encodeOrder_nodup : encodeOrder.Nodup := by
  decide

/-- The parameter has not been received yet. -/
def TransportParams.Lacks (q : TransportParams) (id : TransportParamId) : Prop :=
  q.adopt transportParamsDefault id = q

theorem TransportParams.Lacks.adopt {q params : TransportParams} {id id' : TransportParamId} (hne : id ≠ id')
    (h : q.Lacks id') : (q.adopt params id).Lacks id' := by
  rw [TransportParams.Lacks, TransportParams.adopt_comm q params transportParamsDefault hne, h]

theorem TransportParamId.pick_self {α : Type} (id of : TransportParamId) (x : α) : id.pick of x x = x := by
  rw [pick, ite_self]

theorem transportParamsDefault_lacks (id : TransportParamId) : transportParamsDefault.Lacks id := by
  simp only [TransportParams.Lacks, TransportParams.adopt, TransportParamId.pick_self]

end Adopting

section Records

theorem TransportParamId.toNat_lt (id : TransportParamId) : id.toNat < 2 ^ 62 := by
  cases id <;> decide

/-- The type of the parameter as it is written. -/
def TransportParamId.type (id : TransportParamId) : Bytes :=
  Pkt.putUvarint ⟨id.toNat, id.toNat_lt⟩

theorem putUvarint_id (id : TransportParamId) : putUvarint id.toNat = .ok id.type :=
  putUvarint_varint ⟨id.toNat, id.toNat_lt⟩

theorem putUvarintlen_id (id : TransportParamId) : putUvarintlen id.toNat = .ok id.type.length := by
  rw [TransportParamId.type, Pkt.putUvarint_length]
  exact putUvarintlen_varint ⟨id.toNat, id.toNat_lt⟩

theorem TransportParamId.ofType_toNat (id : TransportParamId) : ofType id.toNat = some id := by
  cases id <;> decide

theorem decodeStep_type (q : TransportParams) (id : TransportParamId) (rest : Bytes) :
    decodeStep q (id.type ++ rest) = decodeParam q id rest := by
  rw [decodeStep, TransportParamId.type, decodeVarint_putUvarint]
  simp only [bind, Except.bind, TransportParamId.ofType_toNat]

/-- Both passes agree on a parameter with the given body. -/
structure Written (id : TransportParamId) (write : Dec Bytes) (len : Dec Nat) (body : Bytes) : Prop where
  write_eq : write = .ok (id.type ++ body)
  len_eq : len = .ok (id.type ++ body).length
  nonempty : body ≠ []

theorem written_varint (id : TransportParamId) {value : Nat} (h : value < 2 ^ 62) :
    ∃ body, Written id (writeVarintParam id value) (varintParamlen id value) body ∧
      ∀ rest, decodeVarintParam (body ++ rest) = .ok (value, rest) := by
  let n : Varint := ⟨value, h⟩
  have hput : putUvarint value = .ok (Pkt.putUvarint n) := putUvarint_varint n
  have hlen : putUvarintlen value = .ok (lenVarint n).1 := putUvarintlen_varint n
  refine ⟨Pkt.putUvarint (lenVarint n) ++ Pkt.putUvarint n, ⟨?_, ?_, ?_⟩, decodeVarintParam_putUvarint n⟩
  · rw [writeVarintParam, putUvarint_id, hlen]
    simp only [bind, Except.bind, putUvarint_varint, hput, List.append_assoc]
  · rw [varintParamlen, putUvarintlen_id, hlen]
    simp only [bind, Except.bind, putUvarintlen_varint, List.length_append, Pkt.putUvarint_length]
    rw [Nat.add_assoc]
    rfl
  · apply List.ne_nil_of_length_pos
    have hpos := Pkt.putUvarintlen_pos n
    rw [List.length_append, Pkt.putUvarint_length, Pkt.putUvarint_length]
    omega

theorem written_zero (id : TransportParamId) : Written id (writeZeroParam id) (zeroParamlen id) [0] where
  write_eq := by
    rw [writeZeroParam, putUvarint_id]
    rfl
  len_eq := by
    rw [zeroParamlen, putUvarintlen_id, List.length_append]
    rfl
  nonempty := List.cons_ne_nil 0 []

theorem decodeZeroParam_zero (rest : Bytes) : decodeZeroParam ([0] ++ rest) = .ok ((), rest) := by
  rw [decodeZeroParam, if_neg (by simp)]
  rfl

theorem written_bytes (id : TransportParamId) {value : Bytes} {valuelen : Nat} (hlen : value.length = valuelen)
    (h : valuelen < 2 ^ 62) :
    Written id (writeBytesParam id valuelen value) (bytesParamlen id valuelen)
      (Pkt.putUvarint ⟨valuelen, h⟩ ++ value) where
  write_eq := by
    rw [writeBytesParam, putUvarint_id]
    simp only [bind, Except.bind, putUvarint_varint ⟨valuelen, h⟩, List.append_assoc]
  len_eq := by
    rw [bytesParamlen, putUvarintlen_id]
    simp only [bind, Except.bind, putUvarintlen_varint ⟨valuelen, h⟩, List.length_append, Pkt.putUvarint_length,
      hlen, Nat.add_assoc]
  nonempty := by
    apply List.ne_nil_of_length_pos
    have hpos := Pkt.putUvarintlen_pos ⟨valuelen, h⟩
    rw [List.length_append, Pkt.putUvarint_length]
    omega

theorem written_cid (id : TransportParamId) {cid : Bytes} (h : cid.length ≤ maxCidlen) :
    ∃ body, Written id (writeCidParam id cid) (cidParamlen id cid) body ∧
      ∀ rest, decodeCidParam (body ++ rest) = .ok (cid, rest) := by
  have hlt : cid.length < 2 ^ 62 := Nat.lt_of_le_of_lt h (by decide)
  have hmin : cid.length = 0 ∨ minCidlen ≤ cid.length := by
    rw [minCidlen]
    omega
  refine ⟨Pkt.putUvarint ⟨cid.length, hlt⟩ ++ cid, ?_, fun rest => ?_⟩
  · rw [writeCidParam, if_pos ⟨hmin, h⟩]
    exact written_bytes id rfl hlt
  · rw [decodeCidParam, List.append_assoc, decodeVarint_putUvarint]
    simp only [bind, Except.bind]
    rw [if_neg, if_neg (Nat.not_lt.mpr h)]
    · exact getBytes_append rfl rest
    · rw [minCidlen] at hmin ⊢
      rw [List.length_append]
      omega

theorem written_token (id : TransportParamId) (token : Vector UInt8 16) :
    ∃ body, Written id (writeBytesParam id 16 token.toList) (bytesParamlen id 16) body ∧
      ∀ rest, decodeTokenParam (body ++ rest) = .ok (token, rest) := by
  have hlen : token.toList.length = 16 := token.length_toList
  refine ⟨_, written_bytes id hlen (by decide), fun rest => ?_⟩
  rw [decodeTokenParam, List.append_assoc, decodeVarint_putUvarint]
  simp only [bind, Except.bind]
  rw [if_neg (fun h => h rfl), if_neg, getArray_append]
  rw [List.length_append]
  omega

theorem writeSockaddr_length {n : Nat} (present : Bool) (sa : Sockaddr n) :
    (writeSockaddr present sa).length = n + 2 := by
  rw [writeSockaddr]
  split_ifs
  · rw [List.length_append, sa.addr.length_toList, sa.port.length_toList]
  · rw [List.length_append, List.length_replicate]
    rfl

theorem decodeSockaddr_writeSockaddr {n : Nat} {family : AddrFamily} {sa : Sockaddr n} {present : Bool}
    (h : sa.Valid family present) (rest : Bytes) :
    decodeSockaddr family {} false (writeSockaddr present sa ++ rest) =
      .ok ((if present then sa else {}, present), rest) := by
  cases present with
  | true =>
      obtain ⟨hfamily, hzero⟩ := h rfl
      rw [writeSockaddr, if_pos rfl, if_pos rfl, decodeSockaddr, List.append_assoc, getArray_append]
      simp only [bind, Except.bind, getArray_append]
      rw [if_pos, ← hfamily]
      rw [Sockaddr.IsZero, not_and_or] at hzero
      exact hzero
  | false =>
      have hzeros : (writeSockaddr false sa ++ rest) =
          (Vector.replicate n (0 : UInt8)).toList ++ ((Vector.replicate 2 (0 : UInt8)).toList ++ rest) := by
        rw [writeSockaddr, if_neg Bool.false_ne_true, List.append_assoc, Vector.toList_replicate]
        rfl
      rw [hzeros, decodeSockaddr, getArray_append]
      simp only [bind, Except.bind, getArray_append]
      rw [if_neg (by simp), if_neg Bool.false_ne_true]

theorem writePreferredAddr_length (addr : PreferredAddr) :
    (writePreferredAddr addr).length = preferredAddrlen addr := by
  rw [writePreferredAddr, preferredAddrlen]
  simp only [List.length_append, writeSockaddr_length, Vector.length_toList, List.length_singleton]

theorem written_preferredAddr (id : TransportParamId) {addr : PreferredAddr} (hmin : minCidlen ≤ addr.cid.length)
    (hmax : addr.cid.length ≤ maxCidlen) (hipv4 : addr.ipv4.Valid .inet addr.ipv4Present)
    (hipv6 : addr.ipv6.Valid .inet6 addr.ipv6Present) :
    ∃ body, Written id (writeBytesParam id (preferredAddrlen addr) (writePreferredAddr addr))
      (bytesParamlen id (preferredAddrlen addr)) body ∧
      ∀ rest, decodePreferredAddr {} (body ++ rest) = .ok (addr.present, rest) := by
  have hlt : preferredAddrlen addr < 2 ^ 62 := by
    rw [maxCidlen] at hmax
    rw [preferredAddrlen]
    omega
  have hbyte : (UInt8.ofNat addr.cid.length).toNat = addr.cid.length := by
    rw [maxCidlen] at hmax
    rw [UInt8.toNat_ofNat']
    omega
  refine ⟨_, written_bytes id (writePreferredAddr_length addr) hlt, fun rest => ?_⟩
  rw [decodePreferredAddr, List.append_assoc, decodeVarint_putUvarint]
  simp only [bind, Except.bind]
  rw [if_neg, if_neg]
  · rw [writePreferredAddr]
    simp only [List.append_assoc]
    rw [decodeSockaddr_writeSockaddr hipv4]
    dsimp only
    rw [decodeSockaddr_writeSockaddr hipv6]
    dsimp only
    rw [getBytes_append (List.length_singleton)]
    dsimp only
    rw [List.getD_cons_zero, hbyte, if_neg]
    · rw [getBytes_append rfl]
      dsimp only
      rw [getArray_append]
      rfl
    · rw [preferredAddrlen]
      omega
  · rw [preferredAddrlen]
    omega
  · rw [List.length_append, writePreferredAddr_length]
    omega

theorem decodeVersions_flatMap {versions : List Nat} (h : ∀ v ∈ versions, 0 < v ∧ v < 2 ^ 32) (rest : Bytes) :
    decodeVersions versions.length (versions.flatMap (putUintbe 4) ++ rest) = .ok ((), rest) := by
  induction versions with
  | nil => rfl
  | cons v versions ih =>
      obtain ⟨hpos, hlt⟩ := h v List.mem_cons_self
      rw [List.flatMap_cons, List.append_assoc, List.length_cons, decodeVersions, getUint32be_append hlt]
      simp only [bind, Except.bind]
      rw [if_neg (Nat.ne_of_gt hpos), ih fun w hw => h w (List.mem_cons_of_mem v hw)]

theorem written_versionInfo (id : TransportParamId) {info : VersionInfo} (h : info.Valid) :
    ∃ body, Written id (writeBytesParam id (versionInfolen info) (writeVersionInfo info))
      (bytesParamlen id (versionInfolen info)) body ∧
      ∀ rest, decodeVersionInfo {} (body ++ rest) = .ok (info, rest) := by
  obtain ⟨versions, hversions, havailable⟩ := h.available
  have hcount : info.availableVersions.length = 4 * versions.length := by
    rw [havailable, flatMap_putUintbe_length]
  have hlen : (writeVersionInfo info).length = versionInfolen info := by
    rw [writeVersionInfo, versionInfolen, List.length_append, Pkt.putUintbe_length]
  refine ⟨_, written_bytes id hlen h.len_lt, fun rest => ?_⟩
  rw [decodeVersionInfo, List.append_assoc, decodeVarint_putUvarint]
  simp only [bind, Except.bind]
  rw [if_neg, if_neg, writeVersionInfo, List.append_assoc, getUint32be_append h.chosen_lt]
  · dsimp only
    rw [if_neg (Nat.ne_of_gt h.chosen_pos)]
    have htotal : versionInfolen info - 4 = info.availableVersions.length := Nat.add_sub_cancel_left _ _
    by_cases hmore : 4 < versionInfolen info
    · have hdiv : info.availableVersions.length / 4 = versions.length := by omega
      have hread := decodeVersions_flatMap hversions rest
      rw [← havailable] at hread
      rw [if_pos hmore, htotal, hdiv, hread, List.take_left]
    · have hnil : info.availableVersions = [] := by
        apply List.length_eq_zero_iff.mp
        omega
      have hinfo : (⟨info.chosenVersion, []⟩ : VersionInfo) = info := by rw [← hnil]
      rw [if_neg hmore, hnil, List.nil_append]
      exact congrArg (fun i => Except.ok (i, rest)) hinfo
  · rw [versionInfolen]
    omega
  · rw [List.length_append, hlen]
    omega

end Records

end Zngtcp2.Tp
