import Zngtcp2.Tp.Decode

namespace Zngtcp2.Tp

open Pkt (Bytes Stop Dec getUvarint getUvarintlen getUintbe putUintbe)
open Lib.Run (Ends)
open Lib.Records (Reads readAll)

section Reads

/-- A byte that is read through a pointer. -/
def readByte (p : Bytes) : Dec UInt8 :=
  match p with
  | [] => .error .outOfBounds
  | b :: _ => .ok b

/-- `ngtcp2_get_uvarint`, which looks at as many bytes as the first one says. -/
def readUvarint (p : Bytes) : Dec (Nat × Bytes) := do
  let b ← readByte p
  if p.length < getUvarintlen b then .error .outOfBounds
  else .ok (getUvarint p, p.drop (getUvarintlen b))

/-- `decode_varint` with every read checked -/
def decodeVarintChecked (p : Bytes) : Dec (Nat × Bytes) :=
  if p = [] then malformed
  else do
    let b ← readByte p
    if p.length < getUvarintlen b then malformed else readUvarint p

def decodeVarintParamChecked (p : Bytes) : Dec (Nat × Bytes) := do
  let (valuelen, p) ← decodeVarintChecked p
  if p = [] then malformed
  else if p.length < valuelen then malformed
  else do
    let b ← readByte p
    if getUvarintlen b ≠ valuelen then malformed else readUvarint p

def decodeZeroParamChecked (p : Bytes) : Dec (Unit × Bytes) :=
  if p = [] then malformed
  else do
    let b ← readByte p
    if b ≠ 0 then malformed else .ok ((), p.drop 1)

theorem decodeVarintChecked_eq (p : Bytes) : decodeVarintChecked p = decodeVarint p := by
  cases p with
  | nil => rfl
  | cons b bs =>
      simp only [decodeVarintChecked, decodeVarint, readUvarint, readByte, bind, Except.bind, List.getD_cons_zero]
      by_cases hlen : (b :: bs).length < getUvarintlen b
      · simp only [if_pos hlen]
      · simp only [if_neg hlen]

theorem decodeVarintParamChecked_eq (p : Bytes) : decodeVarintParamChecked p = decodeVarintParam p := by
  rw [decodeVarintParamChecked, decodeVarintParam, decodeVarintChecked_eq]
  cases decodeVarint p with
  | error e => rfl
  | ok r =>
      obtain ⟨valuelen, q⟩ := r
      cases q with
      | nil => rfl
      | cons b bs =>
          simp only [readUvarint, readByte, bind, Except.bind, List.getD_cons_zero]
          by_cases hlen : (b :: bs).length < valuelen
          · simp only [if_pos hlen]
          simp only [if_neg hlen]
          by_cases hvaluelen : getUvarintlen b = valuelen
          · simp only [hvaluelen, if_neg hlen]
          · simp only [ne_eq, hvaluelen, not_false_eq_true, if_true]

theorem decodeZeroParamChecked_eq (p : Bytes) : decodeZeroParamChecked p = decodeZeroParam p := by
  cases p with
  | nil => rfl
  | cons b bs =>
      simp only [decodeZeroParamChecked, decodeZeroParam, readByte, bind, Except.bind, List.getD_cons_zero]
      by_cases hb : b = 0
      · simp [hb]
      · simp [hb]

end Reads

/-- What is left after a successful step has the property. -/
abbrev Leaves {α : Type} (P : Bytes → Prop) (x : Dec (α × Bytes)) : Prop :=
  Ends (fun _ => True) (fun r => P r.2) x

section Advance

variable {p : Bytes} {n : Nat}

theorem malformed_leaves {α : Type} (P : Bytes → Prop) : Leaves P (malformed : Dec (α × Bytes)) :=
  trivial

theorem decodeVarint_leaves (p : Bytes) :
    Leaves (fun rest => rest <:+ p ∧ rest.length < p.length) (decodeVarint p) := by
  have hsafe := decodeVarint_safe p
  cases hvarint : decodeVarint p with
  | error e => trivial
  | ok r =>
      rw [hvarint] at hsafe
      exact hsafe.2

/-- A value behind a length is shorter than both. -/
theorem decodeVarint_bind {α : Type} {f : Nat × Bytes → Dec (α × Bytes)}
    (hf : ∀ valuelen q, Leaves (fun rest => rest.length ≤ q.length) (f (valuelen, q))) :
    Leaves (fun rest => rest.length < p.length) (decodeVarint p >>= f) := by
  apply Ends.bind (decodeVarint_leaves p)
  rintro ⟨valuelen, q⟩ ⟨-, hlt⟩
  apply Ends.mono (hf valuelen q)
  intro rest hrest
  exact Nat.lt_of_le_of_lt hrest hlt

theorem drop_leaves {α : Type} (a : α) (k : Nat) (h : p.length ≤ n) :
    Leaves (fun rest => rest.length ≤ n) (.ok (a, p.drop k) : Dec (α × Bytes)) := by
  change (p.drop k).length ≤ n
  rw [List.length_drop]
  omega

theorem getBytes_leaves (k : Nat) (h : p.length ≤ n) : Leaves (fun rest => rest.length ≤ n) (getBytes k p) := by
  rw [getBytes]
  split_ifs
  · trivial
  · exact drop_leaves _ k h

theorem getArray_leaves (k : Nat) (h : p.length ≤ n) : Leaves (fun rest => rest.length ≤ n) (getArray k p) := by
  rw [getArray]
  split_ifs
  · exact drop_leaves _ k h
  · trivial

theorem decodeVarintParam_advances (p : Bytes) :
    Leaves (fun rest => rest.length < p.length) (decodeVarintParam p) := by
  apply decodeVarint_bind
  intro valuelen q
  dsimp only
  split_ifs
  · trivial
  · trivial
  · trivial
  · exact drop_leaves _ _ (Nat.le_refl _)

theorem decodeBoundedParam_advances (bound : Nat) (p : Bytes) :
    Leaves (fun rest => rest.length < p.length) (decodeBoundedParam bound p) := by
  apply Ends.bind (decodeVarintParam_advances p)
  rintro ⟨value, q⟩ hq
  dsimp only
  split_ifs
  · trivial
  · exact hq

theorem decodeIdleTimeoutParam_advances (p : Bytes) :
    Leaves (fun rest => rest.length < p.length) (decodeIdleTimeoutParam p) := by
  apply Ends.bind (decodeVarintParam_advances p)
  rintro ⟨value, q⟩ hq
  exact hq

theorem decodeMaxAckDelayParam_advances (p : Bytes) :
    Leaves (fun rest => rest.length < p.length) (decodeMaxAckDelayParam p) := by
  apply Ends.bind (decodeVarintParam_advances p)
  rintro ⟨value, q⟩ hq
  dsimp only
  split_ifs
  · trivial
  · exact hq

theorem decodeZeroParam_advances (p : Bytes) : Leaves (fun rest => rest.length < p.length) (decodeZeroParam p) := by
  rw [decodeZeroParam]
  split_ifs with h
  · trivial
  · push Not at h
    have hpos := List.length_pos_iff.mpr h.1
    change (p.drop 1).length < p.length
    rw [List.length_drop]
    omega

theorem decodeCidParam_advances (p : Bytes) : Leaves (fun rest => rest.length < p.length) (decodeCidParam p) := by
  apply decodeVarint_bind
  intro valuelen q
  dsimp only
  split_ifs
  · trivial
  · trivial
  · exact getBytes_leaves _ (Nat.le_refl _)

theorem decodeTokenParam_advances (p : Bytes) :
    Leaves (fun rest => rest.length < p.length) (decodeTokenParam p) := by
  apply decodeVarint_bind
  intro valuelen q
  dsimp only
  split_ifs
  · trivial
  · trivial
  · exact getArray_leaves 16 (Nat.le_refl _)

theorem skipParam_advances (p : Bytes) : Leaves (fun rest => rest.length < p.length) (skipParam p) := by
  apply decodeVarint_bind
  intro valuelen q
  dsimp only
  split_ifs
  · trivial
  · exact drop_leaves _ _ (Nat.le_refl _)

theorem decodeSockaddr_leaves {k : Nat} (family : AddrFamily) (sa : Sockaddr k) (present : Bool) (h : p.length ≤ n) :
    Leaves (fun rest => rest.length ≤ n) (decodeSockaddr family sa present p) := by
  apply Ends.bind (getArray_leaves k h)
  rintro ⟨addr, q⟩ hq
  apply Ends.bind (getArray_leaves 2 hq)
  rintro ⟨port, q⟩ hq
  dsimp only
  split_ifs
  · exact hq
  · exact hq

theorem decodePreferredAddr_advances (addr : PreferredAddr) (p : Bytes) :
    Leaves (fun rest => rest.length < p.length) (decodePreferredAddr addr p) := by
  apply decodeVarint_bind
  intro valuelen q
  dsimp only
  split_ifs
  · trivial
  · trivial
  · apply Ends.bind (decodeSockaddr_leaves _ _ _ (Nat.le_refl _))
    rintro ⟨⟨ipv4, ipv4Present⟩, q₁⟩ hq₁
    apply Ends.bind (decodeSockaddr_leaves _ _ _ hq₁)
    rintro ⟨⟨ipv6, ipv6Present⟩, q₂⟩ hq₂
    apply Ends.bind (getBytes_leaves 1 hq₂)
    rintro ⟨b, q₃⟩ hq₃
    dsimp only
    split_ifs
    · trivial
    · apply Ends.bind (getBytes_leaves _ hq₃)
      rintro ⟨cid, q₄⟩ hq₄
      apply Ends.bind (getArray_leaves 16 hq₄)
      rintro ⟨token, q₅⟩ hq₅
      exact hq₅

theorem decodeVersions_leaves (k : Nat) (h : p.length ≤ n) :
    Leaves (fun rest => rest.length ≤ n) (decodeVersions k p) := by
  induction k generalizing p with
  | zero => exact h
  | succ k ih =>
      apply Ends.bind (P := fun r => r.2.length ≤ n)
      · apply Ends.bind (getBytes_leaves 4 h)
        rintro ⟨bytes, q⟩ hq
        exact hq
      · rintro ⟨version, q⟩ hq
        dsimp only
        split_ifs
        · trivial
        · exact ih hq

theorem getUint32be_drop (p : Bytes) : Leaves (fun rest => rest = p.drop 4) (getUint32be p) := by
  rw [getUint32be, getBytes]
  by_cases h : p.length < 4
  · rw [if_pos h]
    trivial
  · rw [if_neg h]
    rfl

/-- The available versions are bytes of the value, or stay what they were. -/
theorem decodeVersionInfo_spec (info : VersionInfo) (p : Bytes) :
    Ends (fun _ => True) (fun r => r.2.length < p.length ∧
      (r.1.availableVersions = info.availableVersions ∨ r.1.availableVersions <:+: p)) (decodeVersionInfo info p) := by
  apply Ends.bind (decodeVarint_leaves p)
  rintro ⟨valuelen, q⟩ ⟨hsuffix, hlt⟩
  dsimp only at hsuffix hlt ⊢
  by_cases hvaluelen : q.length < valuelen
  · rw [if_pos hvaluelen]
    trivial
  by_cases hbad : valuelen < 4 ∨ valuelen % 4 ≠ 0
  · rw [if_neg hvaluelen, if_pos hbad]
    trivial
  rw [if_neg hvaluelen, if_neg hbad]
  apply Ends.bind (getUint32be_drop q)
  rintro ⟨chosen, q₁⟩ hq₁
  dsimp only at hq₁ ⊢
  have hle : q₁.length ≤ q.length := by
    rw [hq₁, List.length_drop]
    omega
  split_ifs
  · trivial
  · apply Ends.bind (decodeVersions_leaves _ hle)
    rintro ⟨u, q₂⟩ hq₂
    refine ⟨Nat.lt_of_le_of_lt hq₂ hlt, Or.inr ?_⟩
    rw [hq₁]
    exact (List.take_prefix _ _).isInfix.trans ((List.drop_suffix 4 q).trans hsuffix).isInfix
  · exact ⟨Nat.lt_of_le_of_lt hle hlt, Or.inl rfl⟩

/-- One case of the switch advances, and takes the available versions from its value. -/
structure Advanced (params : TransportParams) (p : Bytes) (r : TransportParams × Bytes) : Prop where
  shorter : r.2.length < p.length
  versions : r.1.versionInfo.availableVersions = params.versionInfo.availableVersions ∨
    r.1.versionInfo.availableVersions <:+: p

theorem store_advanced {α : Type} {params : TransportParams} {x : Dec (α × Bytes)} {f : α → TransportParams}
    (hx : Leaves (fun rest => rest.length < p.length) x) (hf : ∀ a, (f a).versionInfo = params.versionInfo) :
    Ends (fun _ => True) (Advanced params p) (store x f) := by
  apply Ends.bind hx
  rintro ⟨a, q⟩ hq
  exact ⟨hq, Or.inl (by rw [hf a])⟩

theorem decodeParam_advanced (params : TransportParams) (id : TransportParamId) (p : Bytes) :
    Ends (fun _ => True) (Advanced params p) (decodeParam params id p) := by
  rw [decodeParam.eq_def]
  cases id with
  | initialMaxStreamDataBidiLocal | initialMaxStreamDataBidiRemote | initialMaxStreamDataUni | initialMaxData
  | maxUdpPayloadSize | activeConnectionIdLimit | maxDatagramFrameSize =>
      exact store_advanced (decodeVarintParam_advances p) fun _ => rfl
  | initialMaxStreamsBidi | initialMaxStreamsUni | ackDelayExponent =>
      exact store_advanced (decodeBoundedParam_advances _ p) fun _ => rfl
  | maxIdleTimeout => exact store_advanced (decodeIdleTimeoutParam_advances p) fun _ => rfl
  | maxAckDelay => exact store_advanced (decodeMaxAckDelayParam_advances p) fun _ => rfl
  | statelessResetToken => exact store_advanced (decodeTokenParam_advances p) fun _ => rfl
  | preferredAddress => exact store_advanced (decodePreferredAddr_advances _ p) fun _ => rfl
  | disableActiveMigration | greaseQuicBit => exact store_advanced (decodeZeroParam_advances p) fun _ => rfl
  | originalDestinationConnectionId | retrySourceConnectionId | initialSourceConnectionId =>
      exact store_advanced (decodeCidParam_advances p) fun _ => rfl
  | versionInformation =>
      apply Ends.bind (decodeVersionInfo_spec params.versionInfo p)
      rintro ⟨info, q⟩ ⟨hlt, hversions⟩
      exact ⟨hlt, hversions⟩

/-- Each iteration advances by two bytes at least: one of the type, and one of the length or the value. -/
theorem decodeStep_advances {params params' : TransportParams} {q : Bytes} (h : decodeStep params p = .ok (params', q)) :
    q <:+ p ∧ 2 + q.length ≤ p.length ∧
      (params'.versionInfo.availableVersions = params.versionInfo.availableVersions ∨
        params'.versionInfo.availableVersions <:+: p) := by
  have hsuffix := decodeStep_safe params p
  rw [h] at hsuffix
  refine ⟨hsuffix.2.1, ?_⟩
  have hvarint := decodeVarint_safe p
  obtain ⟨⟨paramType, q₁⟩, htype, h⟩ := Lib.Run.bind_ok h
  rw [htype] at hvarint
  obtain ⟨-, hsuffix₁, hlt⟩ := hvarint
  simp only at hsuffix₁ hlt h
  cases hid : TransportParamId.ofType paramType with
  | some id =>
      rw [hid] at h
      have hparam := decodeParam_advanced params id q₁
      simp only at h
      rw [h] at hparam
      refine ⟨?_, hparam.versions.imp_right fun hin => hin.trans hsuffix₁.isInfix⟩
      have hshorter := hparam.shorter
      simp only at hshorter
      omega
  | none =>
      rw [hid] at h
      have hskip := skipParam_advances q₁
      obtain ⟨⟨u, q₂⟩, hrest, h⟩ := Lib.Run.bind_ok h
      rw [hrest] at hskip
      cases h
      have hskip : q₂.length < q₁.length := hskip
      exact ⟨show 2 + q₂.length ≤ p.length by omega, Or.inl rfl⟩

end Advance

/-- What is promised of parameters that were accepted. -/
structure Accepted (data : Bytes) (params : TransportParams) : Prop where
  originalDcid : params.originalDcid.length ≤ maxCidlen
  initialScid : params.initialScid.length ≤ maxCidlen
  retryScid : params.retryScid.length ≤ maxCidlen
  preferredCid : params.preferredAddr.cid.length ≤ maxCidlen
  versions_inside : params.versionInfo.availableVersions <:+: data
  versions_aligned : params.versionInfo.availableVersions.length % 4 = 0
  versions_nonzero : ∀ i, 4 * i < params.versionInfo.availableVersions.length →
    getUintbe ((params.versionInfo.availableVersions.drop (4 * i)).take 4) ≠ 0
  ackDelayExponent : params.ackDelayExponent ≤ 20
  maxAckDelay : params.maxAckDelay < 2 ^ 14 * milliseconds

/-- The numbers are found again at every fourth byte. -/
theorem flatMap_putUintbe_take {versions : List Nat} {i : Nat} (h : i < versions.length) :
    ((versions.flatMap (putUintbe 4)).drop (4 * i)).take 4 = putUintbe 4 versions[i] := by
  induction versions generalizing i with
  | nil => exact absurd h (Nat.not_lt_zero i)
  | cons v vs ih =>
      have hlen : (putUintbe 4 v).length = 4 := Pkt.putUintbe_length 4 v
      rw [List.flatMap_cons]
      cases i with
      | zero => rw [Nat.mul_zero, List.drop_zero, List.take_left' hlen, List.getElem_cons_zero]
      | succ i =>
          rw [Nat.mul_succ, Nat.add_comm, ← List.drop_drop, List.drop_left' hlen, List.getElem_cons_succ]
          exact ih (Nat.lt_of_succ_lt_succ h)

theorem TransportParams.Received.accepted {data : Bytes} {params : TransportParams} (h : params.Received)
    (hinside : params.versionInfo.availableVersions <:+: data) : Accepted data params := by
  have hcid {present : Bool} {cid : Bytes} (hpresent : present = true → cid.length ≤ maxCidlen)
      (habsent : present = false → cid = []) : cid.length ≤ maxCidlen := by
    cases present with
    | true => exact hpresent rfl
    | false =>
        rw [habsent rfl]
        exact Nat.zero_le _
  obtain ⟨versions, hversions, havailable⟩ : ∃ versions : List Nat, (∀ v ∈ versions, 0 < v ∧ v < 2 ^ 32) ∧
      params.versionInfo.availableVersions = versions.flatMap (putUintbe 4) := by
    obtain hvalid | hempty := h.versionInfo_valid
    · exact hvalid.available
    · rw [hempty]
      exact ⟨[], by simp, rfl⟩
  obtain ⟨n, hn, hdelay⟩ := h.maxAckDelay
  refine ⟨hcid h.originalDcid h.originalDcid_absent, hcid h.initialScid h.initialScid_absent,
    hcid h.retryScid h.retryScid_absent, ?_, hinside, ?_, ?_, h.ackDelayExponent, ?_⟩
  · apply hcid h.preferredCid
    intro habsent
    rw [h.preferredAddr_absent habsent]
  · rw [havailable, flatMap_putUintbe_length]
    exact Nat.mul_mod_right 4 _
  · intro i hi
    rw [havailable, flatMap_putUintbe_length] at hi
    have hlt : i < versions.length := by omega
    obtain ⟨hpos, hword⟩ := hversions _ (List.getElem_mem hlt)
    replace hword : versions[i] < 256 ^ 4 := Nat.lt_of_lt_of_eq hword (by decide)
    rw [havailable, flatMap_putUintbe_take hlt, Pkt.getUintbe_putUintbe, Nat.mod_eq_of_lt hword]
    exact Nat.ne_of_gt hpos
  · rw [hdelay]
    exact Nat.mul_lt_mul_of_pos_right hn (by decide)

/-- What the parser does with the bytes `data`, whatever they are. -/
structure Robust (data : Bytes) : Prop where
  /-- the only error is the one of a malformed parameter: nothing is read out of bounds, and no assertion fails -/
  outcome : decode data = malformed ∨ ∃ params, decode data = .ok params ∧ Accepted data params
  /-- `n` iterations have consumed `2 * n` bytes at least, so that the loop ends -/
  iterations : ∀ n params rest, Reads decodeStep 2 n transportParamsDefault data params rest →
    rest <:+ data ∧ 2 * n + rest.length ≤ data.length
  consumed : ∀ params, decode data = .ok params →
    ∃ n, Reads decodeStep 2 n transportParamsDefault data params []

theorem decode_outcome (data : Bytes) :
    Ends (· = .err .malformedTransportParam) (Accepted data) (decode data) := by
  apply Ends.bind (Lib.Records.readAll_ends (fun params p => p <:+ data ∧ params.Received ∧
    params.versionInfo.availableVersions <:+: data) ?_
      ⟨List.suffix_rfl, transportParamsDefault_received, List.nil_infix⟩)
  · rintro ⟨params, p⟩ ⟨⟨-, hparams, hinside⟩, -⟩
    dsimp only
    split_ifs
    · exact malformed_safe _
    · exact hparams.accepted hinside
  · rintro params p ⟨hp, hparams, hinside⟩ -
    have hsafe := decodeStep_safe params p
    cases hstep : decodeStep params p with
    | error e =>
        rw [hstep] at hsafe
        exact hsafe
    | ok r =>
        rw [hstep] at hsafe
        obtain ⟨hsuffix, -, hversions⟩ := decodeStep_advances hstep
        refine ⟨hsuffix.trans hp, hsafe.1 hparams, ?_⟩
        obtain heq | hin := hversions
        · rw [heq]
          exact hinside
        · exact hin.trans hp.isInfix

/-- The parser is robust against all data, and so it is with every read of an integer checked against the end. -/
theorem decode_robust (data : Bytes) :
    Robust data ∧ decodeVarintChecked = decodeVarint ∧ decodeVarintParamChecked = decodeVarintParam ∧
      decodeZeroParamChecked = decodeZeroParam := by
  refine ⟨⟨?_, fun n params rest hreads => ?_, fun params hdecode => ?_⟩, funext decodeVarintChecked_eq,
    funext decodeVarintParamChecked_eq, funext decodeZeroParamChecked_eq⟩
  · have hends := decode_outcome data
    cases hdecode : decode data with
    | ok params =>
        rw [hdecode] at hends
        exact Or.inr ⟨params, rfl, hends⟩
    | error e =>
        rw [hdecode] at hends
        exact Or.inl (congrArg Except.error hends)
  · apply hreads.rest
    intro params p params' q hstep
    obtain ⟨hsuffix, hlen, -⟩ := decodeStep_advances hstep
    exact ⟨hsuffix, hlen⟩
  · obtain ⟨⟨params', rest⟩, hall, hend⟩ := Lib.Run.bind_ok hdecode
    obtain ⟨n, hreads⟩ := Lib.Records.readAll_reads hall
    refine ⟨n, ?_⟩
    simp only at hend
    split_ifs at hend with hlen
    · cases hend
    · rw [not_not, List.length_eq_zero_iff] at hlen
      cases hend
      rw [hlen] at hreads
      exact hreads

end Zngtcp2.Tp
