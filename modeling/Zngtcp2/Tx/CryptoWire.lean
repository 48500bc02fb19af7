import Zngtcp2.Tx.CryptoQueue

namespace Zngtcp2.CryptoTx

open Strm TxStrm Crumble Lib.Segment Lib.Run

def frameCells (fr : TxFrame) : List Cell :=
  cells fr.offset fr.bytes

def recordedCells (frs : List TxFrame) : List Cell :=
  frs.flatMap frameCells

def sentCells (sent : List (Nat × List UInt8)) : List Cell :=
  sent.flatMap fun c => cells c.1 c.2

/-- The CRYPTO frames on the wire carry, byte for byte, the submitted data of the offset ranges
that are recorded for them. -/
structure Carried (S : List UInt8) (w : Written) : Prop where
  good : ∀ fr ∈ w.recorded, Good S fr
  same : (sentCells w.sent).Perm (recordedCells w.recorded)

theorem Carried.extend {S : List UInt8} {w : Written} (h : Carried S w) (T : List UInt8) : Carried (S ++ T) w :=
  ⟨fun fr hfr => (h.good fr hfr).extend T, h.same⟩

/-- The encoder of the packet layer puts the offset and the vectors on the wire, whatever the
retained buffer holds. -/
theorem encodeCrypto_wireData (fr : TxFrame) (st : Pkt.Stream) (hdata : st.data.vecs = fr.data.map Vec.bytes) :
    Pkt.encodeCrypto st = 0x06 :: (Pkt.putUvarint st.offset ++ Pkt.putUvarint st.data.len ++ (wireData fr).2) := by
  rw [Pkt.encodeCrypto, wireData, vecBytes, ← hdata]
  rfl

theorem pieces_cells (offset : Nat) (data : List Vec) :
    dataCells (pieces offset data) = cells offset (vecBytes data) := by
  induction data generalizing offset with
  | nil => rfl
  | cons v vs ih =>
      rw [pieces, dataCells_cons, ih, vecBytes_cons, cells_append]
      rfl

theorem framePieces_cells (fr : TxFrame) : dataCells (framePieces fr) = frameCells fr := by
  rw [framePieces, frameCells]
  cases htx : fr.txbuf with
  | some txbuf =>
      rw [TxFrame.bytes_of_txbuf htx]
      simp [dataCells, Piece.cells]
  | none =>
      rw [TxFrame.bytes_of_data htx]
      exact pieces_cells _ _

theorem vecSplit_zero {maxcnt : Nat} {data : List Vec} (hcnt : data.length ≤ maxcnt) (hpos : ∀ v ∈ data, 0 < v.len) :
    vecSplit maxcnt data 0 = ([], data) := by
  cases data with
  | nil => rfl
  | cons v vs =>
      have := hpos v List.mem_cons_self
      rw [vecSplit, if_neg (by omega), if_neg (by simp only [List.length_cons] at hcnt; omega), if_pos rfl]

/-- The vectors behind the removed data. -/
theorem vecSplit_behind {v : Vec} {vs : List Vec} {n : Nat} (hn : n ≤ v.len) (hn0 : 0 < n) (hpos : ∀ w ∈ vs, 0 < w.len) :
    (vecSplit (if v.len = n then vs.length else vs.length + 1) (v :: vs) n).2 =
      if v.len = n then vs else v.drop n :: vs := by
  by_cases heq : v.len = n
  · rw [if_pos heq, if_pos heq, vecSplit, if_pos (Nat.le_of_eq heq), heq, Nat.sub_self,
      vecSplit_zero (Nat.le_refl _) hpos]
  · rw [if_neg heq, if_neg heq, vecSplit, if_neg (by omega), if_neg (by omega), if_neg (by omega)]

theorem behind_bytes {v : Vec} {vs : List Vec} {n : Nat} :
    vecBytes (if v.len = n then vs else v.drop n :: vs) = v.bytes.drop n ++ vecBytes vs := by
  split
  · rename_i heq
    rw [← heq, Vec.len, List.drop_length, List.nil_append]
  · rw [vecBytes_cons, Vec.drop_bytes]

theorem behind_ok {v : Vec} {vs : List Vec} {n : Nat} (hok : VecsOk maxStreamDatacnt (v :: vs)) (hn : n ≤ v.len)
    (hne : (if v.len = n then vs.length else vs.length + 1) ≠ 0) :
    VecsOk maxStreamDatacnt (if v.len = n then vs else v.drop n :: vs) := by
  have hcnt := hok.length_le
  have hvs : ∀ w ∈ vs, 0 < w.len := fun w hw => hok.pos w (List.mem_cons_of_mem v hw)
  simp only [List.length_cons] at hcnt
  split at hne
  · rename_i heq
    rw [if_pos heq]
    exact ⟨fun hnil => hne (by rw [hnil]; rfl), by omega, hvs⟩
  · rename_i heq
    rw [if_neg heq]
    refine ⟨by simp, hcnt, List.forall_mem_cons.mpr ⟨?_, hvs⟩⟩
    rw [Vec.drop_len]
    omega

theorem behind_nil {v : Vec} {vs : List Vec} {n : Nat} (h0 : (if v.len = n then vs.length else vs.length + 1) = 0) :
    (if v.len = n then vs else v.drop n :: vs) = [] := by
  split at h0
  · rename_i heq
    rw [if_pos heq, List.length_eq_zero_iff.mp h0]
  · cases h0

theorem streamfrqPush_good {S : List UInt8} {queue queue' : List TxFrame} {fr : TxFrame} (hfr : Good S fr)
    (hq : ∀ g ∈ queue, Good S g) (h : streamfrqPush queue fr = .ok queue') : ∀ g ∈ queue', Good S g := by
  intro g hg
  rcases (kslInsert_mem (streamfrqPush_ok h).2).mp hg with rfl | hg
  · exact hfr
  · exact hq g hg

/-- `conn_cut_crypto_frame` takes the removed data out of the frame and puts it into the queue. -/
theorem cutCryptoFrame_good {S : List UInt8} {fr : TxFrame} {removed : Piece} {queue queue' recorded : List TxFrame}
    {v : Vec} {vs : List Vec} {l k : Nat} (hfr : Good S fr) (htx : fr.txbuf = none) (hdata : fr.data = v :: vs)
    (hl : 0 < l) (hk : 0 < k) (hle : l + k ≤ v.len) (hrem : removed = ⟨fr.offset + l, (v.drop l).take k⟩)
    (hq : ∀ g ∈ queue, Good S g) (h : cutCryptoFrame fr removed queue = .ok (recorded, queue')) :
    (∀ g ∈ queue', Good S g) ∧ (∀ g ∈ recorded, Good S g) ∧
      (recordedCells recorded ++ removed.cells).Perm (frameCells fr) := by
  have hvecs := hfr.vecsOk htx
  have hslice := hfr.vecSlice htx
  rw [hdata] at hvecs hslice
  have hvs : ∀ w ∈ vs, 0 < w.len := fun w hw => hvecs.pos w (List.mem_cons_of_mem v hw)
  have hcnt := hvecs.length_le
  simp only [List.length_cons] at hcnt
  have htake : (v.bytes.take l).length = l := List.length_take_of_le (Nat.le_trans (Nat.le_add_right l k) hle)
  have hmid : ((v.bytes.drop l).take k).length = k := by
    rw [List.length_take, List.length_drop]
    simp only [Vec.len] at hle
    omega
  have hparts : vecBytes (v :: vs) = v.bytes.take l ++ ((v.bytes.drop l).take k ++ (v.bytes.drop (l + k) ++ vecBytes vs)) := by
    rw [vecBytes_cons, ← List.append_assoc, ← List.append_assoc, List.append_assoc (v.bytes.take l), ← List.drop_drop,
      List.take_append_drop, List.take_append_drop]
  rw [hparts] at hslice
  have hleft := hslice.left
  have hrest := hslice.right
  rw [htake] at hrest
  have hbehind := hrest.right
  rw [hmid] at hbehind
  have hremlen : removed.vec.len = k := by rw [hrem]; exact hmid
  have hremoff : removed.offset - fr.offset = l := by rw [hrem]; exact Nat.add_sub_cancel_left _ _
  rw [cutCryptoFrame, hdata] at h
  simp only [hremlen, hremoff] at h
  rw [if_neg (by omega), vecSplit_behind hle (by omega) hvs] at h
  have hbok := @behind_ok v vs (l + k) hvecs hle
  have hbnil := @behind_nil v vs (l + k)
  have hbbytes := @behind_bytes v vs (l + k)
  generalize (if v.len = l + k then vs.length else vs.length + 1) = cnt at h hbok hbnil
  generalize (if v.len = l + k then vs else v.drop (l + k) :: vs) = behind at h hbok hbnil hbbytes
  rw [← hbbytes] at hbehind
  obtain ⟨queue₁, hpush, h⟩ := bind_ok h
  cases h
  have hfirst : Good S { fr with data := [v.take l] } := by
    refine good_copied htx hfr.fin ⟨by simp, by simp only [List.length_singleton]; omega, ?_⟩ (by simpa using hleft)
    intro w hw
    rw [List.mem_singleton.mp hw, v.take_len (by omega)]
    exact hl
  have hremoved : Good S ⟨fr.offset + l, false, [(v.drop l).take k], none⟩ := by
    refine @good_copied S ⟨fr.offset + l, false, [(v.drop l).take k], none⟩ rfl rfl
      ⟨by simp, by simp only [List.length_singleton]; omega, ?_⟩ (by simpa using hrest.left)
    intro w hw
    rw [List.mem_singleton.mp hw, Vec.len, Vec.take_bytes, Vec.drop_bytes, hmid]
    exact hk
  refine ⟨streamfrqPush_good hremoved hq hpush, ?_, ?_⟩
  · refine List.forall_mem_cons.mpr ⟨hfirst, ?_⟩
    split
    · simp
    · rename_i hne
      intro g hg
      rw [List.mem_singleton.mp hg]
      exact @good_copied S ⟨fr.offset + l + k, false, behind, none⟩ rfl rfl (hbok hne) hbehind
  · have hright : recordedCells (if cnt = 0 then [] else [⟨fr.offset + l + k, false, behind, none⟩]) =
        cells (fr.offset + l + k) (vecBytes behind) := by
      split
      · rename_i h0
        rw [hbnil h0]
        rfl
      · simp [recordedCells, frameCells, TxFrame.bytes]
    have hall : frameCells fr = cells fr.offset (v.bytes.take l) ++ (cells (fr.offset + l) ((v.bytes.drop l).take k) ++
        cells (fr.offset + l + k) (vecBytes behind)) := by
      rw [frameCells, TxFrame.bytes_of_data htx, hdata, hparts, cells_append, cells_append, htake, hmid, hbbytes]
    have hfc : frameCells { fr with data := [v.take l] } = cells fr.offset (v.bytes.take l) := by
      simp [frameCells, TxFrame.bytes, htx]
    rw [hall, recordedCells, List.flatMap_cons, ← recordedCells, hright, hfc, hrem, List.append_assoc]
    exact List.perm_append_comm.append_left _

/-- The data that is split up is what the recorded frames hold. -/
structure SniGood (S : List UInt8) (sni : Sni) : Prop where
  queue : ∀ g ∈ sni.queue, Good S g
  recorded : ∀ g ∈ sni.recorded, Good S g
  same : (dataCells sni.data).Perm (recordedCells sni.recorded)

theorem splitServerName_good {S : List UInt8} {s : TxStrm} {fr : TxFrame} {queue : List TxFrame} {pcg : Pcg32} {sni : Sni}
    (hfr : Good S fr) (hq : ∀ g ∈ queue, Good S g) (h : splitServerName s fr queue pcg = .ok sni) : SniGood S sni := by
  have hrec : recordedCells [fr] = frameCells fr := by simp [recordedCells]
  have hall : (dataCells (framePieces fr)).Perm (recordedCells [fr]) := by
    rw [hrec, framePieces_cells]
  have hfrs : ∀ g ∈ [fr], Good S g := by simpa using hfr
  have hsame : SniGood S ⟨framePieces fr, [fr], queue, pcg, 0⟩ := ⟨hq, hfrs, hall⟩
  rw [splitServerName] at h
  simp only at h
  split at h
  · rename_i v vs htx hdata
    split at h
    · cases h
      exact hsame
    · split at h
      · cases h
        exact hsame
      · rename_i pos len hname
        split at h
        · cases h
          exact hsame
        · obtain ⟨off, hoff, h⟩ := bind_ok h
          split at h
          · split at h
            · cases h
            · rename_i data' hsplit
              cases h
              exact ⟨hq, hfrs, (splitVecAt_cells hsplit).trans hall⟩
          · split at h
            · cases h
            · rename_i data' removed pcg' hremove
              obtain ⟨⟨recorded, queue'⟩, hcut, h⟩ := bind_ok h
              cases h
              have hpieces : framePieces fr = ⟨fr.offset, v⟩ :: pieces (fr.offset + v.len) vs := by
                rw [framePieces, htx, hdata]
                rfl
              rw [hpieces] at hremove
              obtain ⟨hperm, l, k, hl, hk, hle, hrem⟩ := removeVecPartial_spec hremove
              rw [← hpieces, framePieces_cells] at hperm
              obtain ⟨hq', hrecorded, hcells⟩ := cutCryptoFrame_good hfr htx hdata hl hk hle hrem hq hcut
              exact ⟨hq', hrecorded, (List.perm_append_right_iff _).mp (hperm.trans hcells.symm)⟩
  · cases h
    exact hsame

theorem written_cells (data : List Piece) (padding : List Item) (hpad : ∀ i ∈ padding, ∀ p, i ≠ .crypto p) :
    sentCells (Crumble.written (data.map .crypto ++ padding)) = dataCells data := by
  have hnone : Crumble.written padding = [] := by
    rw [Crumble.written, List.filterMap_eq_nil_iff]
    intro i hi
    cases i with
    | crypto p => exact absurd rfl (hpad _ hi p)
    | ping => rfl
    | padding len => rfl
  rw [Crumble.written, List.filterMap_append, ← Crumble.written, ← Crumble.written, hnone, List.append_nil]
  induction data with
  | nil => rfl
  | cons p ps ih =>
      rw [dataCells_cons, ← ih]
      rfl

theorem appendPingAndPadding_not_crypto (fuel n : Nat) (pcg : Pcg32) :
    ∀ i ∈ (appendPingAndPadding fuel n pcg).1, ∀ p, i ≠ .crypto p := by
  induction fuel generalizing n pcg with
  | zero => simp [appendPingAndPadding]
  | succ fuel ih =>
      rw [appendPingAndPadding]
      split
      · simp
      · simp only
        split
        · exact List.forall_mem_cons.mpr ⟨by simp, ih _ _⟩
        · exact List.forall_mem_cons.mpr ⟨by simp, ih _ _⟩

structure RoundGood (S : List UInt8) (r : Round) : Prop where
  queue : ∀ g ∈ r.queue, Good S g
  recorded : ∀ w ∈ r.written, ∀ g ∈ w.recorded, Good S g

theorem roundGood_nothing {S : List UInt8} {queue : List TxFrame} (hq : ∀ g ∈ queue, Good S g) (pcg : Pcg32) :
    RoundGood S ⟨queue, pcg, none⟩ :=
  ⟨hq, by simp⟩

theorem crumbleInitialCrypto_good {S : List UInt8} {s : TxStrm} (hs : s.acked.Wf S.length) {pcg : Pcg32}
    {left off : Nat} {r : Round} (hq : ∀ g ∈ s.queue, Good S g) (h : crumbleInitialCrypto s pcg left off = .ok r) :
    RoundGood S r ∧ ∀ w ∈ r.written, Carried S w := by
  simp only [crumbleInitialCrypto] at h
  split at h
  · cases h
    exact ⟨roundGood_nothing hq pcg, by simp⟩
  · split at h
    · split at h
      · cases h
        exact ⟨roundGood_nothing hq pcg, by simp⟩
      · obtain ⟨⟨res, queue⟩, hpop, h⟩ := bind_ok h
        obtain ⟨hqueue, hres⟩ := streamfrqPop_good hs hq hpop
        cases res with
        | none =>
            cases h
            exact ⟨roundGood_nothing hqueue pcg, by simp⟩
        | some fr =>
            simp only at h
            split at h
            · cases h
            · obtain ⟨sni, hsni, h⟩ := bind_ok h
              obtain ⟨hsq, hsr, hscells⟩ := splitServerName_good (hres fr rfl).1 hqueue hsni
              have hsplit : (dataCells (if sni.data.length < 10 + 1 then
                  splitVecRand (10 - (sni.data.length - 1)) sni.data sni.pcg else (sni.data, sni.pcg)).1).Perm
                  (dataCells sni.data) := by
                split
                · exact splitVecRand_cells _ _ _
                · exact List.Perm.refl _
              generalize (if sni.data.length < 10 + 1 then
                  splitVecRand (10 - (sni.data.length - 1)) sni.data sni.pcg else (sni.data, sni.pcg)) = d at h hsplit
              cases h
              refine ⟨⟨hsq, fun w hw => by cases hw; exact hsr⟩, ?_⟩
              intro w hw
              cases hw
              refine ⟨hsr, ?_⟩
              refine ((?_ : List.Perm _ _).trans hsplit).trans hscells
              rw [← written_cells d.1 _ (appendPingAndPadding_not_crypto _ _ _)]
              exact ((permutateVec_perm _ _).filterMap _).flatMap_right _
    · cases h

/-- Whether a CRYPTO loop without crumbling writes a frame: there is room for one byte. -/
def hasRoom (off left : Nat) : Bool :=
  if h : off < 2 ^ 62 then (Pkt.cryptoMaxDatalen ⟨off, h⟩ left left).isSome else false

theorem writeCrypto_good {S : List UInt8} {s : TxStrm} (hs : s.acked.Wf S.length) {pcg : Pcg32} {left off : Nat}
    {r : Round} (hq : ∀ g ∈ s.queue, Good S g) (h : writeCrypto s pcg left off = .ok r) :
    RoundGood S r ∧ ((hasRoom off left = true → ∀ g, firstWanted s.acked s.queue = some g → g.txbuf = none) →
      ∀ w ∈ r.written, Carried S w) := by
  simp only [writeCrypto] at h
  split at h
  · rename_i hlt
    split at h
    · cases h
      exact ⟨roundGood_nothing hq pcg, by simp⟩
    · rename_i left' hmax
      obtain ⟨⟨res, queue⟩, hpop, h⟩ := bind_ok h
      obtain ⟨hqueue, hres⟩ := streamfrqPop_good hs hq hpop
      cases res with
      | none =>
          cases h
          exact ⟨roundGood_nothing hqueue pcg, by simp⟩
      | some fr =>
          cases h
          obtain ⟨hfr, ⟨g, hg, hkind⟩, -⟩ := hres fr rfl
          have hrec : ∀ f ∈ [fr], Good S f := by simpa using hfr
          refine ⟨⟨hqueue, fun w hw => by cases hw; exact hrec⟩, ?_⟩
          intro hcopied w hw
          cases hw
          have htx := hkind (hcopied (by rw [hasRoom, dif_pos hlt, hmax]; rfl) g hg)
          refine ⟨hrec, ?_⟩
          simp [sentCells, recordedCells, frameCells, wireData, TxFrame.bytes_of_data htx]
  · cases h

/-- The frame a round without crumbling takes has its data in vectors: the frame in front of the
queue that still has bytes to send was copied, or nothing fits the packet. -/
def copiedInFront (s : TxStrm) (left : Nat) : Bool :=
  match s.unackedOffset s.queue, firstWanted s.acked s.queue with
  | .ok (some off), some g => !hasRoom off left || g.txbuf.isNone
  | _, _ => true

theorem copiedInFront_spec {s : TxStrm} {left off : Nat} (h : copiedInFront s left = true)
    (hoff : s.unackedOffset s.queue = .ok (some off)) (hroom : hasRoom off left = true) {g : TxFrame}
    (hg : firstWanted s.acked s.queue = some g) : g.txbuf = none := by
  rw [copiedInFront, hoff, hg] at h
  simpa [hroom] using h

theorem cryptoRound_good {S : List UInt8} {s : TxStrm} (hs : s.acked.Wf S.length) {pcg : Pcg32} {crumble : Bool}
    {left : Nat} {r : Round} (hq : ∀ g ∈ s.queue, Good S g) (h : cryptoRound s pcg crumble left = .ok r) :
    RoundGood S r ∧ ((crumble = false → copiedInFront s left = true) → ∀ w ∈ r.written, Carried S w) := by
  rw [cryptoRound] at h
  split at h
  · cases h
    exact ⟨roundGood_nothing (by simp) pcg, by simp⟩
  · obtain ⟨off, hoff, h⟩ := bind_ok h
    cases off with
    | none =>
        cases h
        exact ⟨roundGood_nothing (by simp) pcg, by simp⟩
    | some off =>
        simp only at h
        split at h
        · cases h
          exact ⟨roundGood_nothing hq pcg, by simp⟩
        · cases crumble with
          | true =>
              obtain ⟨hr, hcarried⟩ := crumbleInitialCrypto_good hs hq h
              exact ⟨hr, fun _ => hcarried⟩
          | false =>
              obtain ⟨hr, hcarried⟩ := writeCrypto_good hs hq h
              exact ⟨hr, fun hcopied => hcarried (fun hroom g hg => copiedInFront_spec (hcopied rfl) hoff hroom hg)⟩

end Zngtcp2.CryptoTx
