import Zngtcp2.Pkt.Protect

namespace Zngtcp2.Pkt

namespace Ppe

/-- The plaintext of the packet: what is in the table, and the control bytes behind it. -/
def contents (ppe : Ppe) : Bytes :=
  (ppe.plainv.map PlainV.bytes).flatten ++ ppe.plain.drop ppe.plainvOffset

theorem addPlainv_ok {ppe ppe' : Ppe} {v : PlainV} (h : ppe.addPlainv v = (.ok, ppe')) :
    ppe' = { ppe with plainv := ppe'.plainv } ∧
      (ppe'.plainv.map PlainV.bytes).flatten = (ppe.plainv.map PlainV.bytes).flatten ++ v.bytes := by
  rcases addPlainv_cases ppe v with ⟨heq, hz⟩ | ⟨heq, -⟩ | ⟨heq, -⟩
  · rw [heq] at h
    cases h
    rw [List.eq_nil_of_length_eq_zero hz, List.append_nil]
    exact ⟨rfl, rfl⟩
  · rw [heq] at h
    cases h
  · rw [heq] at h
    cases h
    exact ⟨rfl, by simp⟩

/-- Everything written so far is in the table. -/
theorem flushControl_ok {ppe ppe' : Ppe} (h : ppe.flushControl = (.ok, ppe')) :
    ppe' = { ppe with plainv := ppe'.plainv, plainvOffset := ppe.plain.length } ∧
      (ppe'.plainv.map PlainV.bytes).flatten = ppe.contents := by
  rw [flushControl] at h
  split at h
  · rename_i ppe₁ hadd
    obtain ⟨heq, hflat⟩ := addPlainv_ok hadd
    cases h
    rw [heq]
    exact ⟨rfl, hflat⟩
  · rename_i rv hne
    rw [h] at hne
    exact absurd rfl (hne ppe')

/-- A frame that is written is appended to the plaintext. -/
structure Appends (ppe ppe' : Ppe) (bytes : Bytes) : Prop where
  cap : ppe'.cap = ppe.cap
  maxOverhead : ppe'.maxOverhead = ppe.maxOverhead
  hdlen : ppe'.hdlen = ppe.hdlen
  payloadlen : ppe'.payloadlen = ppe.payloadlen + bytes.length
  contents : ppe'.contents = ppe.contents ++ bytes
  offset_le : ppe'.plainvOffset ≤ ppe'.plain.length

theorem appends_plain {ppe : Ppe} (h : ppe.plainvOffset ≤ ppe.plain.length) (bytes : Bytes) :
    Appends ppe { ppe with plain := ppe.plain ++ bytes, payloadlen := ppe.payloadlen + bytes.length } bytes := by
  refine ⟨rfl, rfl, rfl, rfl, ?_, ?_⟩
  · simp only [Ppe.contents]
    rw [List.drop_append_of_le_length h, List.append_assoc]
  · simp only [List.length_append]
    omega

theorem encodeRetained_ok {ppe ppe' : Ppe} {bufLeft : Nat} {hd data : Bytes} (hoff : ppe.plainvOffset ≤ ppe.plain.length)
    (h : ppe.encodeRetained bufLeft hd data = (.ok, ppe')) : Appends ppe ppe' (hd ++ data) := by
  rw [encodeRetained] at h
  split at h
  · cases h
  split at h
  · cases h
  split at h
  · cases h
  simp only at h
  split at h
  · rename_i ppe₁ hflush
    obtain ⟨heq₁, hflat₁⟩ := flushControl_ok hflush
    obtain ⟨heq₂, hflat₂⟩ := addPlainv_ok h
    have hplain := appends_plain hoff hd
    rw [heq₂, heq₁]
    refine ⟨rfl, rfl, rfl, by simp, ?_, by simp⟩
    simp only [Ppe.contents, List.drop_length, List.append_nil]
    rw [hflat₂, hflat₁]
    have hcontents := hplain.contents
    simp only [Ppe.contents] at hcontents ⊢
    rw [hcontents, List.append_assoc]
  · rename_i hne
    rw [h] at hne
    exact absurd rfl (hne ppe')

theorem encodeFrame_ok {ppe ppe' : Ppe} {fr : Frame} (hoff : ppe.plainvOffset ≤ ppe.plain.length)
    (h : ppe.encodeFrame fr = (.ok, ppe')) : Appends ppe ppe' fr.wire := by
  rw [encodeFrame_eq] at h
  split at h
  · cases h
  split at h
  · rename_i buf hz
    rw [Frame.wire, hz, Option.map_some, Option.getD_some]
    exact encodeRetained_ok hoff h
  · rename_i hz
    rw [Frame.wire, hz, Option.map_none, Option.getD_none, List.append_nil]
    rw [encodeCopied] at h
    split at h
    · cases h
    · cases h
      exact appends_plain hoff _

theorem encodeHd_ok {ppe ppe' : Ppe} {hdlen pktNumOffset : Nat} (h : ppe.encodeHd hdlen pktNumOffset = (.ok, ppe')) :
    ppe' = { ppe with hdlen := hdlen } := by
  rw [encodeHd] at h
  split at h
  · cases h
  split at h
  · cases h
  split at h
  · cases h
  · cases h
    rfl

end Ppe

/-- What the encoder keeps of the header. -/
structure TxPkt.Holds (t : TxPkt) (h : TxHd) (bytes : Bytes) : Prop where
  hdBytes : t.hdBytes = if h.hd.longForm then h.encodeHdLong else h.encodeHdShort
  lenOffset : t.lenOffset = if h.hd.longForm then (h.longPrelude 0).length else 0
  pktNumOffset : t.pktNumOffset = if h.hd.longForm then (h.longPrelude 0).length + 4 else 1 + h.hd.dcid.length
  pktNumlen : t.pktNumlen = h.hd.pktNumlen
  pktNum : t.pktNum = h.hd.pktNum
  hdlen : t.ppe.hdlen = t.hdBytes.length
  contents : t.ppe.contents = bytes
  payloadlen : t.ppe.payloadlen = bytes.length
  offset_le : t.ppe.plainvOffset ≤ t.ppe.plain.length

theorem TxHd.longPrelude_length (h : TxHd) (first : UInt8) :
    (h.longPrelude first).length = 1 + 4 + 1 + h.hd.dcid.length + 1 + h.hd.scid.length +
      (if h.hd.type = .initial then putUvarintlen h.tokenlen + h.hd.token.length else 0) := by
  simp only [TxHd.longPrelude, TxHd.tokenField, List.length_cons, List.length_append, putUintbe_length]
  split
  · simp only [List.length_append, putUvarint_length]
    omega
  · simp only [List.length_nil]
    omega

theorem TxPkt.encodeHd_ok {cap maxOverhead dgramOffset : Nat} {h : TxHd} {t : TxPkt}
    (ht : TxPkt.encodeHd cap maxOverhead dgramOffset h = .ok t) : t.Holds h [] ∧ t.ppe.maxOverhead = maxOverhead := by
  simp only [TxPkt.encodeHd] at ht
  split at ht
  · rename_i ppe hppe
    obtain rfl := Ppe.encodeHd_ok hppe
    cases ht
    refine ⟨⟨rfl, ?_, ?_, rfl, rfl, rfl, rfl, rfl, Nat.le_refl _⟩, rfl⟩
    · rw [TxHd.longPrelude_length]
    · rw [TxHd.longPrelude_length]
      cases h.hd.longForm <;> rfl
  · cases ht

theorem TxPkt.pad_ok {t t' : TxPkt} {h : TxHd} {bytes : Bytes} {len k : Nat} (ht : t.Holds h bytes)
    (hpad : t.pad k = .ok (len, t')) :
    t'.Holds h (bytes ++ List.replicate len 0) ∧ t'.ppe.maxOverhead = t.ppe.maxOverhead := by
  simp only [TxPkt.pad] at hpad
  generalize (if t.pktLen + t.ppe.maxOverhead < t.pktNumOffset + 4 + Ppe.hpSamplelen then
    max k (t.pktNumOffset + 4 + Ppe.hpSamplelen - (t.pktLen + t.ppe.maxOverhead)) else k) = n at hpad
  split at hpad
  · cases hpad
  · simp only [Except.ok.injEq, Prod.mk.injEq] at hpad
    obtain ⟨hlen, rfl⟩ := hpad
    rw [hlen]
    have happ := Ppe.appends_plain ht.offset_le (List.replicate len 0)
    have hcontents := happ.contents
    have hpayload := happ.payloadlen
    simp only [List.length_replicate] at hcontents hpayload
    refine ⟨⟨ht.hdBytes, ht.lenOffset, ht.pktNumOffset, ht.pktNumlen, ht.pktNum, ht.hdlen, ?_, ?_, happ.offset_le⟩, rfl⟩
    · rw [hcontents, ht.contents]
    · simp only [List.length_append, List.length_replicate, ht.payloadlen]

/-- The packet holds its header and the frames that were written. -/
theorem Filled.holds {maxOverhead : Nat} {h : TxHd} {t : TxPkt} {bytes : Bytes} (ht : Filled maxOverhead h t bytes) :
    t.Holds h bytes ∧ t.ppe.maxOverhead = maxOverhead := by
  induction ht with
  | start ht => exact TxPkt.encodeHd_ok ht
  | frame _ hfr ih =>
      obtain ⟨hholds, hmax⟩ := ih
      have happ := Ppe.encodeFrame_ok hholds.offset_le hfr
      refine ⟨⟨hholds.hdBytes, hholds.lenOffset, hholds.pktNumOffset, hholds.pktNumlen, hholds.pktNum, ?_, ?_, ?_,
        happ.offset_le⟩, ?_⟩
      · simp only [happ.hdlen, hholds.hdlen]
      · rw [happ.contents, hholds.contents]
      · rw [happ.payloadlen, hholds.payloadlen, List.length_append]
      · simp only [happ.maxOverhead, hmax]
  | padding _ hpad ih =>
      obtain ⟨hholds, hmax⟩ := TxPkt.pad_ok ih.1 hpad
      exact ⟨hholds, hmax.trans ih.2⟩
  | dgramPadding _ hpad ih =>
      obtain ⟨hholds, hmax⟩ := TxPkt.pad_ok ih.1 hpad
      exact ⟨hholds, hmax.trans ih.2⟩

theorem xor_masked_and {c k : UInt8} (h : c &&& k = 0) (a m : UInt8) : (a ^^^ (m &&& c)) &&& k = a &&& k := by
  have hbits : ∀ i, (c.toBitVec.getLsbD i && k.toBitVec.getLsbD i) = false := by
    intro i
    have := congrArg (fun x : UInt8 => x.toBitVec.getLsbD i) h
    simpa using this
  apply UInt8.toBitVec_inj.mp
  apply BitVec.eq_of_getLsbD_eq
  intro i hi
  have hi' := hbits i
  simp only [UInt8.toBitVec_and, UInt8.toBitVec_xor, BitVec.getLsbD_and, BitVec.getLsbD_xor]
  cases hc : c.toBitVec.getLsbD i <;> cases hk : k.toBitVec.getLsbD i <;> simp_all

theorem xor_xor (a m : UInt8) : (a ^^^ m) ^^^ m = a := by
  rw [UInt8.xor_assoc, UInt8.xor_self, UInt8.xor_zero]

theorem xorFirst_xorFirst (m : UInt8) (bs : Bytes) : xorFirst m (xorFirst m bs) = bs := by
  cases bs with
  | nil => rfl
  | cons b bs => simp only [xorFirst, xor_xor]

theorem zipWith_xor_xor (bs mask : Bytes) (h : bs.length ≤ mask.length) :
    List.zipWith (· ^^^ ·) (List.zipWith (· ^^^ ·) bs mask) mask = bs := by
  induction bs generalizing mask with
  | nil => rfl
  | cons b bs ih =>
      cases mask with
      | nil => cases h
      | cons m mask =>
          simp only [List.zipWith_cons_cons, xor_xor]
          rw [ih mask (by simpa using h)]

section HeaderProtection

variable {a : UInt8} {hd num rest mask : Bytes}

theorem hpSample_eq {num' : Bytes} (hlen : num'.length = num.length) (hnum : num.length ≤ 4) (a' : UInt8) :
    hpSample (hd.length + 1) ((a' :: hd) ++ (num' ++ rest)) = hpSample (hd.length + 1) ((a :: hd) ++ (num ++ rest)) := by
  have hdrop : ∀ (b : UInt8) (n : Bytes), n.length = num.length →
      ((b :: hd) ++ (n ++ rest)).drop (hd.length + 1 + 4) = rest.drop (4 - num.length) := by
    intro b n hn
    rw [← List.drop_drop, show hd.length + 1 = (b :: hd).length from rfl, List.drop_left, List.drop_append,
      List.drop_eq_nil_of_le (by omega), List.nil_append, hn]
  rw [hpSample, hpSample, hdrop a' num' hlen, hdrop a num rfl]

theorem xorPktNum_append (a : UInt8) (hd num rest mask : Bytes) :
    xorPktNum (hd.length + 1) num.length mask ((a :: hd) ++ (num ++ rest)) =
      (a :: hd) ++ (List.zipWith (· ^^^ ·) num ((mask.drop 1).take num.length) ++ rest) := by
  have hlen : hd.length + 1 = (a :: hd).length := rfl
  rw [xorPktNum, hlen, List.take_left, List.drop_left, List.take_left, ← List.drop_drop, List.drop_left, List.drop_left,
    List.append_assoc]

/-- `decrypt_hp` undoes the masks that the sender applied. -/
theorem decryptHp_masked {K H : Type} (crypto : Crypto K H) (keys : Keys K H) (pktHd : PktHd)
    (hnum : (a &&& 0x03).toNat + 1 = num.length) (hsize : hd.length + 1 + 4 + 16 ≤ hd.length + 1 + num.length + rest.length)
    (hmask : mask = crypto.hpMask keys.hp (hpSample (hd.length + 1) ((a :: hd) ++ (num ++ rest)))) :
    decryptHp crypto keys pktHd
        (xorPktNum (hd.length + 1) num.length mask
          (xorFirst (firstMask pktHd.longForm mask) ((a :: hd) ++ (num ++ rest)))) (hd.length + 1) =
      .ok (hd.length + 1 + num.length,
        { pktHd with
          keyPhase := pktHd.keyPhase || (!pktHd.longForm && decide (a &&& 0x04 ≠ 0))
          pktNumlen := num.length
          pktNum := getUintbe num }, (a :: hd) ++ (num ++ rest)) := by
  have hfour : num.length ≤ 4 := by
    have hle : (a &&& 0x03).toNat ≤ 3 := by
      rw [UInt8.toNat_and]
      exact Nat.and_le_right
    omega
  have hlen : 5 ≤ mask.length := by
    rw [hmask]
    exact crypto.hpMask_length _ _
  have hzip : (List.zipWith (· ^^^ ·) num ((mask.drop 1).take num.length)).length = num.length := by
    simp only [List.length_zipWith, List.length_take, List.length_drop]
    omega
  have hfirst : ∀ (m : UInt8) (bs : Bytes), xorFirst m (((a ^^^ m) :: hd) ++ bs) = (a :: hd) ++ bs := by
    intro m bs
    simp only [List.cons_append, xorFirst, xor_xor]
  have hundo : xorPktNum (hd.length + 1) num.length mask
      ((a :: hd) ++ (List.zipWith (· ^^^ ·) num ((mask.drop 1).take num.length) ++ rest)) = (a :: hd) ++ (num ++ rest) := by
    have happ := xorPktNum_append a hd (List.zipWith (· ^^^ ·) num ((mask.drop 1).take num.length)) rest mask
    rw [hzip] at happ
    rw [happ, zipWith_xor_xor _ _ (by simp only [List.length_take, List.length_drop]; omega)]
  rw [List.cons_append, xorFirst, ← List.cons_append, xorPktNum_append]
  simp only [decryptHp]
  rw [if_neg (by simp only [List.length_append, List.length_cons, hzip, Ppe.hpSamplelen]; omega)]
  rw [hpSample_eq hzip hfour, ← hmask, hfirst]
  simp only [List.cons_append, List.getD_cons_zero, hnum]
  rw [if_neg (by simp only [List.length_append, List.length_cons, hzip]; omega)]
  simp only [← List.cons_append]
  rw [hundo]
  have hdrop : ((a :: hd) ++ (num ++ rest)).drop (hd.length + 1) = num ++ rest := by
    rw [show hd.length + 1 = (a :: hd).length from rfl, List.drop_left]
  rw [hdrop, List.take_left]
  by_cases hphase : pktHd.longForm = false ∧ a &&& 0x04 ≠ 0
  · rw [if_pos hphase]
    simp [hphase.1, hphase.2]
  · rw [if_neg hphase]
    have hbits : (!pktHd.longForm && decide (a &&& 0x04 ≠ 0)) = false := by
      rw [Bool.and_eq_false_iff]
      by_cases hform : pktHd.longForm = false
      · exact Or.inr (decide_eq_false (fun hne => hphase ⟨hform, hne⟩))
      · exact Or.inl (by simpa using hform)
    rw [hbits, Bool.or_false]

end HeaderProtection

end Zngtcp2.Pkt
