import Mathlib.Tactic.IntervalCases
import Zngtcp2.Pkt.Unprotect

namespace Zngtcp2.Pkt

theorem getD_eq_drop (bs : Bytes) (i : Nat) : bs.getD i 0 = (bs.drop i).getD 0 0 := by
  simp [List.getD_eq_getElem?_getD]

section Fields

variable {pkt rest : Bytes} {p : Nat}

theorem length_of_drop {bs : Bytes} (hne : bs ≠ []) (h : pkt.drop p = bs) : pkt.length = p + bs.length := by
  have hlen := congrArg List.length h
  have hpos := List.length_pos_iff.mpr hne
  rw [List.length_drop] at hlen
  omega

theorem decodeLength_of_drop {len : Nat} (hlen : len < 2 ^ 30) (h : pkt.drop p = putUvarint30 len ++ rest) :
    decodeLength pkt (p + 1) p = some (p + 4, len) := by
  have hne : putUvarint30 len ++ rest ≠ [] := by
    apply List.length_pos_iff.mp
    simp
  have htotal := length_of_drop hne h
  rw [List.length_append, putUvarint30_length] at htotal
  simp only [decodeLength]
  rw [getD_eq_drop, h, getUvarintlen_putUvarint30 hlen, getUvarint_putUvarint30 hlen, if_neg (by omega)]

theorem decodeToken_of_drop {n : Varint} {token : Bytes} (hn : n.1 = token.length) (hrest : rest ≠ [])
    (h : pkt.drop p = putUvarint n ++ (token ++ rest)) :
    decodeToken pkt (p + 2) p =
      some (p + putUvarintlen n + token.length + 1, p + putUvarintlen n + token.length, token) := by
  have hpos := putUvarintlen_pos n
  have hrestpos := List.length_pos_iff.mpr hrest
  have hne : putUvarint n ++ (token ++ rest) ≠ [] := by
    apply List.length_pos_iff.mp
    simp only [List.length_append, putUvarint_length]
    omega
  have htotal := length_of_drop hne h
  simp only [List.length_append, putUvarint_length] at htotal
  have htoken : (pkt.drop (p + putUvarintlen n)).take token.length = token := by
    rw [← List.drop_drop, h, ← putUvarint_length n, List.drop_left, List.take_left]
  simp only [decodeToken]
  rw [getD_eq_drop, h, getUvarintlen_putUvarint, getUvarint_putUvarint, hn, htoken, if_neg (by omega), if_neg (by omega)]
  simp only [Option.some.injEq, Prod.mk.injEq, and_true]
  omega

end Fields

/-- The type of a packet is in two bits of its first byte. -/
theorem pktGetTypeLong_congr {version : Nat} {c c' : UInt8} (h : c' &&& 0x30 = c &&& 0x30) :
    pktGetTypeLong version c' = pktGetTypeLong version c := by
  simp only [pktGetTypeLong, h]

namespace TxHd

variable (h : TxHd)

/-- The first byte of a long header, read bit by bit. -/
theorem firstLong_spec (hlong : h.hd.longForm = true) (hver : isSupportedVersion h.hd.version = true) :
    h.firstLong &&& 0x80 ≠ 0 ∧ pktGetTypeLong h.hd.version h.firstLong = some h.hd.type ∧
      decide (h.firstLong &&& 0x40 = 0) = h.hd.fixedBitClear ∧ (h.firstLong &&& 0x03).toNat + 1 = h.hd.pktNumlen := by
  have hpos := h.numlen_pos
  have hle := h.numlen_le
  have htype := h.type_long hlong
  simp only [isSupportedVersion, decide_eq_true_eq] at hver
  rw [firstLong]
  generalize h.hd.pktNumlen = n at hpos hle ⊢
  generalize h.hd.fixedBitClear = fixed
  generalize h.hd.version = version at hver ⊢
  generalize h.hd.type = type at htype ⊢
  interval_cases n <;> rcases hver with rfl | rfl <;> rcases htype with rfl | rfl | rfl <;> cases fixed <;> decide

theorem firstShort_spec :
    h.firstShort &&& 0x80 = 0 ∧ decide (h.firstShort &&& 0x40 = 0) = h.hd.fixedBitClear ∧
      decide (h.firstShort &&& 0x04 ≠ 0) = h.hd.keyPhase ∧ (h.firstShort &&& 0x03).toNat + 1 = h.hd.pktNumlen := by
  have hpos := h.numlen_pos
  have hle := h.numlen_le
  rw [firstShort]
  generalize h.hd.pktNumlen = n at hpos hle ⊢
  generalize h.hd.fixedBitClear = fixed
  generalize h.hd.keyPhase = keyPhase
  interval_cases n <;> cases fixed <;> cases keyPhase <;> decide

variable {h} {first : UInt8} {rest : Bytes}

theorem longPrelude_append (first : UInt8) (rest : Bytes) :
    h.longPrelude first ++ rest =
      first :: (putUintbe 4 h.hd.version ++ (UInt8.ofNat h.hd.dcid.length :: (h.hd.dcid ++
        (UInt8.ofNat h.hd.scid.length :: (h.hd.scid ++ (h.tokenField ++ rest)))))) := by
  simp [longPrelude]

/-- The bytes of a long header from each of its fields on. -/
theorem longPrelude_drop (first : UInt8) (rest : Bytes) :
    (h.longPrelude first ++ rest).drop 5 =
        UInt8.ofNat h.hd.dcid.length :: (h.hd.dcid ++ (UInt8.ofNat h.hd.scid.length :: (h.hd.scid ++ (h.tokenField ++ rest)))) ∧
      (h.longPrelude first ++ rest).drop (6 + h.hd.dcid.length) =
        UInt8.ofNat h.hd.scid.length :: (h.hd.scid ++ (h.tokenField ++ rest)) ∧
      (h.longPrelude first ++ rest).drop (7 + (h.hd.dcid.length + h.hd.scid.length)) = h.tokenField ++ rest := by
  have hfive : (h.longPrelude first ++ rest).drop 5 =
      UInt8.ofNat h.hd.dcid.length :: (h.hd.dcid ++ (UInt8.ofNat h.hd.scid.length :: (h.hd.scid ++ (h.tokenField ++ rest)))) := by
    rw [longPrelude_append, List.drop_succ_cons, List.drop_append_of_le_length (by rw [putUintbe_length]),
      List.drop_eq_nil_of_le (by rw [putUintbe_length]), List.nil_append]
  have hscil : (h.longPrelude first ++ rest).drop (6 + h.hd.dcid.length) =
      UInt8.ofNat h.hd.scid.length :: (h.hd.scid ++ (h.tokenField ++ rest)) := by
    rw [show 6 + h.hd.dcid.length = 5 + (h.hd.dcid.length + 1) by omega, ← List.drop_drop, hfive, List.drop_succ_cons,
      List.drop_left]
  refine ⟨hfive, hscil, ?_⟩
  rw [show 7 + (h.hd.dcid.length + h.hd.scid.length) = 6 + h.hd.dcid.length + (h.hd.scid.length + 1) by omega,
    ← List.drop_drop, hscil, List.drop_succ_cons, List.drop_left]

theorem decodeLongTail_encoded {pkt : Bytes} {len p : Nat} (hlong : h.hd.longForm = true) (hlen : len < 2 ^ 30)
    (hdrop : pkt.drop (7 + p) = h.tokenField ++ (putUvarint30 len ++ rest)) :
    decodeLongTail h.hd.type pkt (minLongHdlen h.hd.type + p) (7 + p) =
      some (7 + p + h.tokenField.length + 4, if h.hd.type = .initial then h.hd.token else [], len) := by
  have hne : putUvarint30 len ++ rest ≠ [] := by
    apply List.length_pos_iff.mp
    simp
  by_cases htype : h.hd.type = .initial
  · have hfield : h.tokenField = putUvarint h.tokenlen ++ h.hd.token := if_pos htype
    rw [hfield, List.append_assoc] at hdrop
    have htoken := decodeToken_of_drop (n := h.tokenlen) rfl hne hdrop
    have hafter : pkt.drop (7 + p + putUvarintlen h.tokenlen + h.hd.token.length) = putUvarint30 len ++ rest := by
      rw [Nat.add_assoc (7 + p), ← List.drop_drop, hdrop, ← putUvarint_length h.tokenlen, ← List.drop_drop, List.drop_left,
        List.drop_left]
    have hlength := decodeLength_of_drop hlen hafter
    have hmin : minLongHdlen h.hd.type + p = 7 + p + 2 := by
      rw [htype, minLongHdlen]
      omega
    rw [hmin, htype]
    simp only [decodeLongTail, htoken, hlength, Option.map_some, if_true, hfield, List.length_append, putUvarint_length]
    simp only [Option.some.injEq, Prod.mk.injEq, and_true]
    omega
  · have hfield : h.tokenField = [] := if_neg htype
    rw [hfield, List.nil_append] at hdrop
    have hlength := decodeLength_of_drop hlen hdrop
    rw [hfield, List.length_nil, if_neg htype]
    rcases h.type_long hlong with hi | hz | hh
    · exact absurd hi htype
    · rw [hz, minLongHdlen, show 9 - 1 + p = 7 + p + 1 by omega]
      · simp only [decodeLongTail, hlength, Option.map_some, Nat.add_zero]
      all_goals simp
    · rw [hh, minLongHdlen, show 9 - 1 + p = 7 + p + 1 by omega]
      · simp only [decodeLongTail, hlength, Option.map_some, Nat.add_zero]
      all_goals simp

theorem tokenField_length :
    h.tokenField.length = if h.hd.type = .initial then putUvarintlen h.tokenlen + h.hd.token.length else 0 := by
  rw [tokenField]
  split <;> simp

/-- What is decoded from the fields up to the connection IDs, of a packet of any type, and what follows them. -/
theorem decodeHdLong_prelude {type : PktType} {len longlen : Nat} {token : Bytes} (hver : isSupportedVersion h.hd.version = true)
    (hfirst : first &&& 0x80 ≠ 0) (htype : pktGetTypeLong h.hd.version first = some type)
    (hmin : minLongHdlen type + (h.hd.dcid.length + h.hd.scid.length) ≤ (h.longPrelude first ++ rest).length)
    (htail : decodeLongTail type (h.longPrelude first ++ rest) (minLongHdlen type + (h.hd.dcid.length + h.hd.scid.length))
      (7 + (h.hd.dcid.length + h.hd.scid.length)) = some (len, token, longlen)) :
    decodeHdLong (h.longPrelude first ++ rest) =
      some (len, {
        longForm := true
        fixedBitClear := first &&& 0x40 = 0
        type := type
        version := h.hd.version
        dcid := h.hd.dcid
        scid := h.hd.scid
        token := token
        len := longlen }) := by
  obtain ⟨hdcil, hscil, -⟩ := @longPrelude_drop h first rest
  have hd := h.dcid_le
  have hs := h.scid_le
  have hdtoNat : (UInt8.ofNat h.hd.dcid.length).toNat = h.hd.dcid.length := by
    rw [UInt8.toNat_ofNat']
    omega
  have hstoNat : (UInt8.ofNat h.hd.scid.length).toNat = h.hd.scid.length := by
    rw [UInt8.toNat_ofNat']
    omega
  have hversion : getUintbe (((h.longPrelude first ++ rest).drop 1).take 4) = h.hd.version := by
    have htake : ((h.longPrelude first ++ rest).drop 1).take 4 = putUintbe 4 h.hd.version := by
      rw [longPrelude_append, List.drop_succ_cons, List.drop_zero,
        List.take_append_of_le_length (by rw [putUintbe_length]), List.take_of_length_le (by rw [putUintbe_length])]
    rw [htake, getUintbe_putUintbe]
    exact Nat.mod_eq_of_lt h.version_lt
  have hvne : h.hd.version ≠ 0 := by
    intro hzero
    rw [hzero] at hver
    exact absurd hver (by decide)
  have hget : (h.longPrelude first ++ rest).getD 0 0 = first := by
    rw [longPrelude_append, List.getD_cons_zero]
  have hseven := minLongHdlen_ge type
  apply decodeHdLong_iff.mpr
  refine ⟨type, h.hd.dcid.length, h.hd.scid.length, ?_⟩
  refine ⟨?_, ?_, ?_, ?_, hd, ?_, hs, hmin, htail, ?_⟩
  · omega
  · simp only [isLongForm, hget, decide_eq_true_eq]
    exact hfirst
  · rw [hversion, hget, if_neg hvne]
    exact htype
  · rw [getD_eq_drop, hdcil, List.getD_cons_zero, hdtoNat]
  · rw [getD_eq_drop, hscil, List.getD_cons_zero, hstoNat]
  · have hdcid : ((h.longPrelude first ++ rest).drop 6).take h.hd.dcid.length = h.hd.dcid := by
      rw [show 6 = 5 + 1 from rfl, ← List.drop_drop, hdcil, List.drop_succ_cons, List.drop_zero, List.take_left]
    have hscid : ((h.longPrelude first ++ rest).drop (7 + h.hd.dcid.length)).take h.hd.scid.length = h.hd.scid := by
      rw [show 7 + h.hd.dcid.length = 6 + h.hd.dcid.length + 1 by omega, ← List.drop_drop, hscil, List.drop_succ_cons,
        List.drop_zero, List.take_left]
    rw [hversion, hget, hdcid, hscid]
    simp [hvne]

/-- The header that is decoded from a long header, whatever its protected bits are. -/
theorem decodeHdLong_encoded {len : Nat} (hlong : h.hd.longForm = true) (hver : isSupportedVersion h.hd.version = true)
    (hfirst : first &&& 0x80 ≠ 0) (htype : pktGetTypeLong h.hd.version first = some h.hd.type) (hlen : len < 2 ^ 30) :
    decodeHdLong (h.longPrelude first ++ (putUvarint30 len ++ rest)) =
      some ((h.longPrelude first).length + 4, {
        longForm := true
        fixedBitClear := first &&& 0x40 = 0
        type := h.hd.type
        version := h.hd.version
        dcid := h.hd.dcid
        scid := h.hd.scid
        token := if h.hd.type = .initial then h.hd.token else []
        len := len }) := by
  obtain ⟨-, -, htail⟩ := @longPrelude_drop h first (putUvarint30 len ++ rest)
  have hplen := h.longPrelude_length first
  have htlen := @tokenField_length h
  have htotal : (h.longPrelude first ++ (putUvarint30 len ++ rest)).length = (h.longPrelude first).length + (4 + rest.length) := by
    rw [List.length_append, List.length_append, putUvarint30_length]
  refine decodeHdLong_prelude hver hfirst htype ?_ ?_
  · have hmin : minLongHdlen h.hd.type ≤ 9 := by cases h.hd.type <;> decide
    omega
  · rw [decodeLongTail_encoded hlong hlen htail]
    simp only [Option.some.injEq, Prod.mk.injEq, and_true]
    omega

theorem decodeHdShort_encoded (hfirst : first &&& 0x80 = 0) :
    decodeHdShort (first :: (h.hd.dcid ++ rest)) h.hd.dcid.length =
      some (1 + h.hd.dcid.length, { fixedBitClear := first &&& 0x40 = 0, type := .oneRtt, dcid := h.hd.dcid }) := by
  rw [decodeHdShort, if_neg (by simp only [List.length_cons, List.length_append]; omega),
    if_neg (by simp [isLongForm, hfirst])]
  simp

end TxHd

/-- The packet number is the one within the window that has the low bytes which were sent. -/
theorem adjustPktNum_window {largest : Int} {pktNum numlen : Nat} (hlargest : -1 ≤ largest) (hnumlen : 1 ≤ numlen)
    (hnum : pktNum ≤ maxPktNum) (hlow : largest + 1 < pktNum + (2 ^ (numlen * 8) / 2 : Nat))
    (hhigh : (pktNum : Int) ≤ largest + 1 + (2 ^ (numlen * 8) / 2 : Nat)) :
    adjustPktNum largest (pktNum % 256 ^ numlen) numlen = .ok pktNum := by
  have hwin : 2 ^ (numlen * 8) = 256 ^ numlen := by
    rw [Nat.mul_comm, Nat.pow_mul]
  have heven : 256 ^ numlen = 2 * (256 ^ numlen / 2) := by
    obtain ⟨k, rfl⟩ : ∃ k, numlen = k + 1 := ⟨numlen - 1, by omega⟩
    rw [Nat.pow_succ]
    omega
  have hor : (largest + 1).toNat / 256 ^ numlen * 256 ^ numlen ||| pktNum % 256 ^ numlen =
      (largest + 1).toNat / 256 ^ numlen * 256 ^ numlen + pktNum % 256 ^ numlen := by
    rw [← hwin, Nat.mul_comm]
    exact (Nat.two_pow_add_eq_or_of_lt (Nat.mod_lt _ (Nat.two_pow_pos _)) _).symm
  rw [hwin] at hlow hhigh
  simp only [adjustPktNum, hwin, hor]
  simp only [maxPktNum] at hnum
  have he := Nat.div_add_mod' (largest + 1).toNat (256 ^ numlen)
  have hp := Nat.div_add_mod' pktNum (256 ^ numlen)
  have hpow : 0 < 256 ^ numlen := Nat.pow_pos (by omega)
  have hpm := Nat.mod_lt pktNum hpow
  have hem := Nat.mod_lt (largest + 1).toNat hpow
  -- The two numbers lie in the same window of low bytes, or in adjacent ones.
  have hcases : pktNum / 256 ^ numlen * 256 ^ numlen = (largest + 1).toNat / 256 ^ numlen * 256 ^ numlen ∨
      pktNum / 256 ^ numlen * 256 ^ numlen = (largest + 1).toNat / 256 ^ numlen * 256 ^ numlen + 256 ^ numlen ∨
      pktNum / 256 ^ numlen * 256 ^ numlen + 256 ^ numlen = (largest + 1).toNat / 256 ^ numlen * 256 ^ numlen := by
    have hq : pktNum / 256 ^ numlen = (largest + 1).toNat / 256 ^ numlen ∨
        pktNum / 256 ^ numlen = (largest + 1).toNat / 256 ^ numlen + 1 ∨
        pktNum / 256 ^ numlen + 1 = (largest + 1).toNat / 256 ^ numlen := by
      have hmono₁ : pktNum / 256 ^ numlen ≤ (largest + 1).toNat / 256 ^ numlen + 1 := by
        rw [← Nat.add_div_right _ hpow]
        exact Nat.div_le_div_right (by omega)
      have hmono₂ : (largest + 1).toNat / 256 ^ numlen ≤ pktNum / 256 ^ numlen + 1 := by
        rw [← Nat.add_div_right _ hpow]
        exact Nat.div_le_div_right (by omega)
      omega
    rcases hq with hq | hq | hq
    · exact Or.inl (by rw [hq])
    · exact Or.inr (Or.inl (by rw [hq, Nat.add_mul, Nat.one_mul]))
    · exact Or.inr (Or.inr (by rw [← hq, Nat.add_mul, Nat.one_mul]))
  generalize (largest + 1).toNat / 256 ^ numlen * 256 ^ numlen = eb at he hcases ⊢
  generalize pktNum / 256 ^ numlen * 256 ^ numlen = pb at hp hcases
  generalize 256 ^ numlen = win at *
  rcases hcases with hcase | hcase | hcase
  · rw [if_neg (by omega), if_neg (by omega)]
    congr 1
    omega
  · rw [if_pos (by omega), if_pos (by omega)]
    congr 1
    omega
  · rw [if_neg (by omega), if_pos (by omega)]
    congr 1
    omega

/-- The largest packet number received is so close to the one sent that its low bytes tell it. -/
def InWindow (largest : Int) (h : TxHd) : Prop :=
  -1 ≤ largest ∧ largest + 1 < h.hd.pktNum + (2 ^ (h.hd.pktNumlen * 8) / 2 : Nat) ∧
    (h.hd.pktNum : Int) ≤ largest + 1 + (2 ^ (h.hd.pktNumlen * 8) / 2 : Nat)

section Unprotect

variable {K H : Type} (crypto : Crypto K H) (keys : Keys K H) {h : TxHd} {a : UInt8} {hd plain mask : Bytes}

/-- A protected packet is opened to what was protected. -/
theorem unprotectPayload_masked {largest : Int} (hwin : InWindow largest h) {pktHd : PktHd}
    (hfirst : (a &&& 0x03).toNat + 1 = h.hd.pktNumlen)
    (hsize : hd.length + 1 + 4 + 16 ≤ hd.length + 1 + h.hd.pktNumlen + (plain.length + crypto.maxOverhead))
    {cipher : Bytes}
    (hcipher : cipher = crypto.encrypt keys.key (createNonce keys.iv h.hd.pktNum) ((a :: hd) ++ h.pktNumField) plain)
    (hmask : mask = crypto.hpMask keys.hp (hpSample (hd.length + 1) ((a :: hd) ++ (h.pktNumField ++ cipher)))) :
    unprotectPayload crypto keys largest pktHd
        (xorPktNum (hd.length + 1) h.hd.pktNumlen mask
          (xorFirst (firstMask pktHd.longForm mask) ((a :: hd) ++ (h.pktNumField ++ cipher)))) (hd.length + 1) =
      .ok (.ok ⟨{ pktHd with
          keyPhase := pktHd.keyPhase || (!pktHd.longForm && decide (a &&& 0x04 ≠ 0))
          pktNumlen := h.hd.pktNumlen
          pktNum := h.hd.pktNum },
        createNonce keys.iv h.hd.pktNum, (a :: hd) ++ h.pktNumField, plain⟩) := by
  have hnum : h.pktNumField.length = h.hd.pktNumlen := putUintbe_length _ _
  have hclen : cipher.length = plain.length + crypto.maxOverhead := by
    rw [hcipher]
    exact crypto.encrypt_length _ _ _ _
  have hopen := @decryptHp_masked a hd h.pktNumField cipher mask K H crypto keys pktHd (hfirst.trans hnum.symm)
    (by rw [hnum, hclen]; exact hsize) hmask
  rw [hnum] at hopen
  have hvalue : getUintbe h.pktNumField = h.hd.pktNum % 256 ^ h.hd.pktNumlen := getUintbe_putUintbe _ _
  have hadjust := adjustPktNum_window hwin.1 h.numlen_pos h.num_le hwin.2.1 hwin.2.2
  have hhdlen : hd.length + 1 + h.hd.pktNumlen = ((a :: hd) ++ h.pktNumField).length := by
    rw [List.length_append, List.length_cons, hnum]
  rw [unprotectPayload, hopen]
  simp only [hvalue, hadjust]
  rw [if_neg (Nat.not_lt.mpr h.num_le), ← List.append_assoc, hhdlen]
  simp only [decryptPkt, List.drop_left, List.take_left, hclen]
  rw [if_neg (by omega), hcipher, crypto.decrypt_encrypt]

variable {t : TxPkt} {bytes pkt : Bytes}

theorem final_ok (ht : t.Holds h bytes) (hfinal : t.final crypto keys = .ok pkt) :
    ∃ p mask, p = t.header ++ crypto.encrypt keys.key (t.nonce keys) t.header bytes ∧
      mask = crypto.hpMask keys.hp (hpSample t.pktNumOffset p) ∧
      pkt = xorPktNum t.pktNumOffset t.pktNumlen mask (xorFirst (firstMask (isLongForm p) mask) p) := by
  rw [TxPkt.final] at hfinal
  split at hfinal
  · rename_i ppe hflush
    obtain ⟨-, hplain⟩ := Ppe.flushControl_ok hflush
    simp only [hplain, ht.contents] at hfinal
    split at hfinal
    · cases hfinal
    · cases hfinal
      exact ⟨_, _, rfl, rfl, rfl⟩
  · cases hfinal

/-- The header of a long header packet, with its Length field. -/
theorem header_long (hlong : h.hd.longForm = true) (ht : t.Holds h bytes) :
    t.header = h.longPrelude h.firstLong ++
      (putUvarint30 ((bytes.length + h.hd.pktNumlen + t.ppe.maxOverhead) % 2 ^ 16) ++ h.pktNumField) := by
  have hlen : (h.longPrelude 0).length = (h.longPrelude h.firstLong).length := rfl
  have hbytes := ht.hdBytes
  have hoff := ht.lenOffset
  rw [hlong, if_pos rfl] at hbytes hoff
  rw [TxPkt.header, if_neg (by rw [hoff]; simp [TxHd.longPrelude]), hbytes, hoff, hlen, ht.payloadlen, ht.pktNumlen]
  rw [TxHd.encodeHdLong, List.take_left, ← List.drop_drop, List.drop_left]
  congr 2

theorem header_short (hshort : h.hd.longForm = false) (ht : t.Holds h bytes) : t.header = h.encodeHdShort := by
  have hbytes := ht.hdBytes
  have hoff := ht.lenOffset
  simp only [hshort, Bool.false_eq_true, if_false] at hbytes hoff
  rw [TxPkt.header, if_pos hoff, hbytes]

/-- What the receiver finds in the header of a packet. -/
structure SameHd (hd hd' : PktHd) : Prop where
  type : hd'.type = hd.type
  dcid : hd'.dcid = hd.dcid
  scid : hd.longForm = true → hd'.scid = hd.scid
  keyPhase : hd'.keyPhase = hd.keyPhase
  pktNumlen : hd'.pktNumlen = hd.pktNumlen
  pktNum : hd'.pktNum = hd.pktNum

theorem unprotectPkt_long {largest : Int} (hlong : h.hd.longForm = true)
    (hver : isSupportedVersion h.hd.version = true) (ht : t.Holds h bytes) (hmax : t.ppe.maxOverhead = crypto.maxOverhead)
    (hsample : t.pktNumOffset + 4 + 16 ≤ t.pktLen + t.ppe.maxOverhead)
    (hlen : bytes.length + h.hd.pktNumlen + t.ppe.maxOverhead < 2 ^ 16) (hwin : InWindow largest h)
    (hfinal : t.final crypto keys = .ok pkt) :
    ∃ hd', unprotectPkt crypto keys h.hd.dcid.length largest pkt = .ok (.ok ⟨hd', t.nonce keys, t.header, bytes⟩) ∧
      SameHd h.hd hd' := by
  obtain ⟨p, mask, hp, hmask, hpkt⟩ := final_ok crypto keys ht hfinal
  obtain ⟨hform, htype, hfixed, hnum⟩ := h.firstLong_spec hlong hver
  have hheader := header_long hlong ht
  rw [Nat.mod_eq_of_lt hlen] at hheader
  obtain ⟨pre, hpre⟩ : ∃ pre, ∀ first, h.longPrelude first = first :: pre := ⟨_, fun _ => rfl⟩
  -- The packet as its first byte, the rest of the header, the packet number and the ciphertext.
  generalize hlf : bytes.length + h.hd.pktNumlen + t.ppe.maxOverhead = lenField at hheader hlen
  have hhdeq : t.header = (h.firstLong :: (pre ++ putUvarint30 lenField)) ++ h.pktNumField := by
    rw [hheader, hpre]
    simp
  have hoff : t.pktNumOffset = (pre ++ putUvarint30 lenField).length + 1 := by
    rw [ht.pktNumOffset, hlong, if_pos rfl, hpre, List.length_append, putUvarint30_length, List.length_cons]
  have hnlen : h.pktNumField.length = h.hd.pktNumlen := putUintbe_length _ _
  have hhdlen : t.ppe.hdlen = (pre ++ putUvarint30 lenField).length + 1 + h.hd.pktNumlen := by
    rw [ht.hdlen, ht.hdBytes, hlong, if_pos rfl, TxHd.encodeHdLong, hpre]
    simp only [List.length_append, List.length_cons, putUvarint30_length, hnlen]
    omega
  have hnonce : t.nonce keys = createNonce keys.iv h.hd.pktNum := by rw [TxPkt.nonce, ht.pktNum]
  have hp' : p = (h.firstLong :: (pre ++ putUvarint30 lenField)) ++ (h.pktNumField ++
      crypto.encrypt keys.key (t.nonce keys) t.header bytes) := by
    rw [hp, ← List.append_assoc, ← hhdeq]
  have hpform : isLongForm p = true := by
    rw [hp', isLongForm, List.cons_append, List.getD_cons_zero]
    simpa using hform
  have hclen : (crypto.encrypt keys.key (t.nonce keys) t.header bytes).length = bytes.length + crypto.maxOverhead :=
    crypto.encrypt_length _ _ _ _
  generalize hcipher : crypto.encrypt keys.key (t.nonce keys) t.header bytes = cipher at hp' hclen
  rw [hoff, ht.pktNumlen, hpform] at hpkt
  rw [hoff] at hmask
  -- The protected bits do not matter to the decoder of the header.
  have hmasked : ∀ k : UInt8, 0x0F &&& k = 0 → (h.firstLong ^^^ firstMask true mask) &&& k = h.firstLong &&& k :=
    fun k hk => xor_masked_and hk _ _
  have hpkt' : pkt = h.longPrelude (h.firstLong ^^^ firstMask true mask) ++ (putUvarint30 lenField ++
      (List.zipWith (· ^^^ ·) h.pktNumField ((mask.drop 1).take h.pktNumField.length) ++ cipher)) := by
    rw [hpkt, hp', List.cons_append, xorFirst, ← List.cons_append, ← hnlen, xorPktNum_append, hpre]
    simp
  have hdecode := @TxHd.decodeHdLong_encoded h (h.firstLong ^^^ firstMask true mask)
    (List.zipWith (· ^^^ ·) h.pktNumField ((mask.drop 1).take h.pktNumField.length) ++ cipher) lenField hlong hver
    (by rw [hmasked 0x80 (by decide)]; exact hform)
    (by rw [pktGetTypeLong_congr (hmasked 0x30 (by decide))]; exact htype) (by omega)
  rw [← hpkt'] at hdecode
  have hzlen : (List.zipWith (· ^^^ ·) h.pktNumField ((mask.drop 1).take h.pktNumField.length)).length =
      h.hd.pktNumlen := by
    have hmlen : 5 ≤ mask.length := by
      rw [hmask]
      exact crypto.hpMask_length _ _
    have hfour := h.numlen_le
    simp only [List.length_zipWith, List.length_take, List.length_drop]
    omega
  have hpktlen : pkt.length = (h.longPrelude (h.firstLong ^^^ firstMask true mask)).length + 4 + lenField := by
    rw [hpkt']
    simp only [List.length_append, putUvarint30_length, hzlen, hclen]
    omega
  have hnread : (h.longPrelude (h.firstLong ^^^ firstMask true mask)).length + 4 =
      (pre ++ putUvarint30 lenField).length + 1 := by
    rw [hpre, List.length_append, putUvarint30_length, List.length_cons]
  have hopen := @unprotectPayload_masked K H crypto keys h h.firstLong (pre ++ putUvarint30 lenField) bytes mask largest hwin
    { longForm := true
      fixedBitClear := (h.firstLong ^^^ firstMask true mask) &&& 0x40 = 0
      type := h.hd.type
      version := h.hd.version
      dcid := h.hd.dcid
      scid := h.hd.scid
      token := if h.hd.type = .initial then h.hd.token else []
      len := lenField } hnum (by rw [TxPkt.pktLen, hhdlen, hoff, ht.payloadlen] at hsample; omega) cipher
    (by rw [← hcipher, hnonce, hhdeq]) (by rw [hmask, hp'])
  have hresult := hopen
  rw [← hp', ← hnonce, ← hhdeq, ← hpkt, ← hnread] at hresult
  have hphase : h.hd.keyPhase = false := by
    cases hk : h.hd.keyPhase with
    | false => rfl
    | true =>
        rw [h.keyPhase_short hk] at hlong
        cases hlong
  refine ⟨_, Eq.trans ?_ hresult, ?_⟩
  · rw [unprotectPkt, if_pos (decodeHdLong_longForm hdecode), hdecode]
    simp only
    rw [if_neg (by omega), List.take_of_length_le (by omega)]
  · exact ⟨rfl, rfl, fun _ => rfl, hphase.symm, rfl, rfl⟩

theorem unprotectPkt_short {largest : Int} (hshort : h.hd.longForm = false) (ht : t.Holds h bytes)
    (hmax : t.ppe.maxOverhead = crypto.maxOverhead) (hsample : t.pktNumOffset + 4 + 16 ≤ t.pktLen + t.ppe.maxOverhead)
    (hwin : InWindow largest h) (hfinal : t.final crypto keys = .ok pkt) :
    ∃ hd', unprotectPkt crypto keys h.hd.dcid.length largest pkt = .ok (.ok ⟨hd', t.nonce keys, t.header, bytes⟩) ∧
      SameHd h.hd hd' := by
  obtain ⟨p, mask, hp, hmask, hpkt⟩ := final_ok crypto keys ht hfinal
  obtain ⟨hform, hfixed, hphase, hnum⟩ := h.firstShort_spec
  have hheader : t.header = (h.firstShort :: h.hd.dcid) ++ h.pktNumField := header_short hshort ht
  have hoff : t.pktNumOffset = h.hd.dcid.length + 1 := by
    rw [ht.pktNumOffset, hshort, if_neg (by simp)]
    omega
  have hnlen : h.pktNumField.length = h.hd.pktNumlen := putUintbe_length _ _
  have hhdlen : t.ppe.hdlen = h.hd.dcid.length + 1 + h.hd.pktNumlen := by
    rw [ht.hdlen, ht.hdBytes, hshort, if_neg (by simp), TxHd.encodeHdShort]
    simp only [List.length_append, List.length_cons, hnlen]
    omega
  have hnonce : t.nonce keys = createNonce keys.iv h.hd.pktNum := by rw [TxPkt.nonce, ht.pktNum]
  have hp' : p = (h.firstShort :: h.hd.dcid) ++ (h.pktNumField ++
      crypto.encrypt keys.key (t.nonce keys) t.header bytes) := by
    rw [hp, ← List.append_assoc, ← hheader]
  have hpform : isLongForm p = false := by
    rw [hp', isLongForm, List.cons_append, List.getD_cons_zero]
    simpa using hform
  generalize hcipher : crypto.encrypt keys.key (t.nonce keys) t.header bytes = cipher at hp'
  rw [hoff, ht.pktNumlen, hpform] at hpkt
  rw [hoff] at hmask
  have hpkt' : pkt = (h.firstShort ^^^ firstMask false mask) :: (h.hd.dcid ++
      (List.zipWith (· ^^^ ·) h.pktNumField ((mask.drop 1).take h.pktNumField.length) ++ cipher)) := by
    rw [hpkt, hp', List.cons_append, xorFirst, ← List.cons_append, ← hnlen, xorPktNum_append, List.cons_append]
  have hmasked : (h.firstShort ^^^ firstMask false mask) &&& 0x80 = 0 := by
    rw [firstMask, xor_masked_and (by decide)]
    exact hform
  have hdecode := @TxHd.decodeHdShort_encoded h (h.firstShort ^^^ firstMask false mask)
    (List.zipWith (· ^^^ ·) h.pktNumField ((mask.drop 1).take h.pktNumField.length) ++ cipher) hmasked
  rw [← hpkt'] at hdecode
  have hresult := @unprotectPayload_masked K H crypto keys h h.firstShort h.hd.dcid bytes mask largest hwin
    { fixedBitClear := (h.firstShort ^^^ firstMask false mask) &&& 0x40 = 0
      type := .oneRtt
      dcid := h.hd.dcid } hnum (by rw [TxPkt.pktLen, hhdlen, hoff, ht.payloadlen] at hsample; omega) cipher
    (by rw [← hcipher, hnonce, hheader]) (by rw [hmask, hp'])
  rw [← hp', ← hnonce, ← hheader, ← hpkt] at hresult
  refine ⟨_, Eq.trans ?_ hresult, ?_⟩
  · rw [unprotectPkt, if_neg (by rw [hpkt', isLongForm, List.getD_cons_zero, hmasked]; decide), hdecode, Nat.add_comm 1]
  · refine ⟨(h.type_short hshort).symm, rfl, fun hlong => ?_, ?_, rfl, rfl⟩
    · rw [hshort] at hlong
      cases hlong
    · rw [← hphase]
      rfl

end Unprotect

/-- A cipher to try packets with: bytes are masked with the key, and the tag sums up all bytes. -/
def sumTag (key : UInt8) (nonce aad plain : Bytes) : Bytes :=
  List.replicate 16 ((nonce ++ aad ++ plain).foldl (· + ·) key)

def sumCrypto : Crypto UInt8 UInt8 where
  maxOverhead := 16
  encrypt key nonce aad plain := plain.map (· ^^^ key) ++ sumTag key nonce aad plain
  decrypt key nonce aad cipher :=
    let plain := (cipher.take (cipher.length - 16)).map (· ^^^ key)
    if cipher.drop (cipher.length - 16) = sumTag key nonce aad plain then some plain else none
  hpMask key sample := (key :: sample).take 5 ++ List.replicate 5 key
  decrypt_encrypt key nonce aad plain := by
    have hlen : (plain.map (· ^^^ key) ++ sumTag key nonce aad plain).length - 16 = (plain.map (· ^^^ key)).length := by
      simp [sumTag]
    have hmap : (plain.map (· ^^^ key)).map (· ^^^ key) = plain := by
      rw [List.map_map]
      exact (List.map_congr_left (fun b _ => xor_xor b key)).trans (List.map_id plain)
    simp only [hlen, List.take_left, List.drop_left, hmap, if_true]
  encrypt_length key nonce aad plain := by simp [sumTag]
  hpMask_length key sample := by simp

def sumKeys : Keys UInt8 UInt8 :=
  ⟨7, List.replicate 12 3, 9⟩

/-- An Initial packet of the given version, with packet number 300 in two bytes. -/
def initialHd (version : Nat) (hversion : version < 2 ^ 32) : TxHd where
  hd := { longForm := true, type := .initial, version := version, dcid := [1, 2, 3, 4], scid := [5], pktNum := 300, pktNumlen := 2 }
  dcid_le := by simp
  scid_le := by simp
  version_lt := hversion
  token_lt := by simp
  len_lt := by simp
  numlen_pos := by simp
  numlen_le := by simp
  num_le := by simp [maxPktNum]
  type_long _ := Or.inl rfl
  type_short h := by cases h
  keyPhase_short h := by cases h

/-- A PING behind the header, padded so that the sample fits. -/
def pingPkt (cap maxOverhead : Nat) (h : TxHd) : Option (TxPkt × Bytes) :=
  match TxPkt.encodeHd cap maxOverhead 0 h with
  | .error _ => none
  | .ok t =>
      match t.ppe.encodeFrame .ping with
      | (.ok, ppe) =>
          match { t with ppe := ppe }.paddingSize 0 with
          | .error _ => none
          | .ok (len, t) => some (t, [] ++ Frame.ping.wire ++ List.replicate len 0)
      | _ => none

theorem pingPkt_filled {cap maxOverhead : Nat} {h : TxHd} {t : TxPkt} {bytes : Bytes}
    (hping : pingPkt cap maxOverhead h = some (t, bytes)) : Filled maxOverhead h t bytes := by
  rw [pingPkt] at hping
  split at hping
  · cases hping
  rename_i t₀ hstart
  split at hping
  · rename_i ppe hframe
    split at hping
    · cases hping
    · rename_i hpad
      cases hping
      exact .padding (.frame (.start hstart) hframe) hpad
  · cases hping

def initialHdV1 : TxHd :=
  initialHd protoVerV1 (by decide)

/-- What the sender keeps of the packet numbers of a space; both are -1 at first. -/
structure TxNums where
  lastPktNum : Int
  largestAckedTxPktNum : Int
  last_ge : -1 ≤ lastPktNum
  acked_ge : -1 ≤ largestAckedTxPktNum

namespace TxNums

/-- The number of the next packet. -/
def pktNum (s : TxNums) : Int :=
  s.lastPktNum + 1

/-- `pktns_select_pkt_numlen` -/
def selectPktNumlen (s : TxNums) : Nat :=
  let n := s.pktNum - s.largestAckedTxPktNum
  if ((maxPktNum / 2 : Nat) : Int) < n then 4
  else
    let n := n * 2 - 1
    if n > 0xFFFFFF then 4
    else if n > 0xFFFF then 3
    else if n > 0xFF then 2
    else 1

theorem selectPktNumlen_cases (s : TxNums) :
    s.selectPktNumlen = 4 ∨
      s.selectPktNumlen = 3 ∧ (s.pktNum - s.largestAckedTxPktNum) * 2 - 1 ≤ 0xFFFFFF ∨
      s.selectPktNumlen = 2 ∧ (s.pktNum - s.largestAckedTxPktNum) * 2 - 1 ≤ 0xFFFF ∨
      s.selectPktNumlen = 1 ∧ (s.pktNum - s.largestAckedTxPktNum) * 2 - 1 ≤ 0xFF := by
  rw [selectPktNumlen]
  simp only
  split
  · exact Or.inl rfl
  split
  · exact Or.inl rfl
  split
  · exact Or.inr (Or.inl ⟨rfl, by omega⟩)
  split
  · exact Or.inr (Or.inr (Or.inl ⟨rfl, by omega⟩))
  · exact Or.inr (Or.inr (Or.inr ⟨rfl, by omega⟩))

/-- Half of the window of the chosen length reaches from the next packet down to the largest one that
is acknowledged. -/
theorem selectPktNumlen_spec {s : TxNums} (hnear : s.pktNum - s.largestAckedTxPktNum ≤ 2 ^ 31) :
    1 ≤ s.selectPktNumlen ∧
      s.pktNum - s.largestAckedTxPktNum ≤ (2 ^ (s.selectPktNumlen * 8) / 2 : Nat) := by
  rcases selectPktNumlen_cases s with h | ⟨h, hn⟩ | ⟨h, hn⟩ | ⟨h, hn⟩
  all_goals
    rw [h]
    exact ⟨by decide, by norm_num; omega⟩

/-- A receiver that has got no less than what is acknowledged, or is ahead of the packet by less than
half a window, reconstructs the packet number from its low bytes. -/
theorem adjustPktNum_truncated (s : TxNums) (m : Int) (hmax : s.pktNum ≤ maxPktNum)
    (hnear : s.pktNum - s.largestAckedTxPktNum ≤ 2 ^ 31)
    (hm : s.largestAckedTxPktNum ≤ m ∧ m < s.pktNum ∨
      s.pktNum ≤ m ∧ m + 1 - s.pktNum < 2 ^ (8 * s.selectPktNumlen - 1)) :
    adjustPktNum m (s.pktNum.toNat % 2 ^ (8 * s.selectPktNumlen)) s.selectPktNumlen = .ok s.pktNum.toNat := by
  obtain ⟨hlen, hreach⟩ := selectPktNumlen_spec hnear
  have hlast := s.last_ge
  have hacked := s.acked_ge
  have hnum : ((s.pktNum.toNat : Nat) : Int) = s.pktNum := Int.toNat_of_nonneg (by rw [pktNum]; omega)
  have hhalf : (2 : Nat) ^ (8 * s.selectPktNumlen - 1) = 2 ^ (s.selectPktNumlen * 8) / 2 := by
    rw [Nat.mul_comm, Nat.pow_sub_one (by decide) (by omega)]
  have hhalf' : (2 : Int) ^ (8 * s.selectPktNumlen - 1) = (2 ^ (s.selectPktNumlen * 8) / 2 : Nat) := by
    rw [← hhalf]
    exact (Nat.cast_pow 2 _).symm
  have hmod : 2 ^ (8 * s.selectPktNumlen) = 256 ^ s.selectPktNumlen := by
    rw [Nat.pow_mul]
  rw [hhalf'] at hm
  rw [hmod]
  apply adjustPktNum_window
  · rcases hm with ⟨hle, -⟩ | ⟨hle, -⟩
    · omega
    · rw [pktNum] at hle
      omega
  · exact hlen
  · omega
  · omega
  · omega

/-- The first packet whose number needs two bytes. -/
def second : TxNums :=
  ⟨1000, 872, by decide, by decide⟩

theorem adjustPktNum_truncated_second :
    second.selectPktNumlen = 2 ∧ adjustPktNum 872 (1001 % 2 ^ 16) 2 = .ok 1001 := by
  refine ⟨by decide, ?_⟩
  exact adjustPktNum_truncated second 872 (by decide) (by decide) (by decide)

end TxNums

end Zngtcp2.Pkt
