import Zngtcp2.Pkt.Ppe
import Zngtcp2.Tx.CrumblePieces
import Zngtcp2.Tx.CryptoSteps

namespace Zngtcp2.CryptoTx

open Strm TxStrm Crumble Lib.Segment Lib.Run

/-- What is charged before the data is split up: the headers of ten CRYPTO frames. -/
def overhead (left cryptoOffset : Nat) : Nat :=
  (1 + uvarintlen (cryptoOffset + left - 1) + uvarintlen left) * 10

structure Crumbled where
  sni : Sni
  data : List Piece
  items : List Item
  pcg : Pcg32

/-- `conn_crumble_initial_crypto` from where it has the frame. -/
def crumbleFrame (s : TxStrm) (fr : TxFrame) (queue : List TxFrame) (pcg : Pcg32) (left cryptoOffset : Nat) :
    Except Stop Crumbled :=
  if fr.offset ≠ cryptoOffset then .error (.fault .assertion)
  else do
    let sni ← splitServerName s fr queue pcg
    let (data, pcg) :=
      if sni.data.length < 10 + 1 then splitVecRand (10 - (sni.data.length - 1)) sni.data sni.pcg else (sni.data, sni.pcg)
    let spare := (overhead left cryptoOffset + sni.removedLen + 2 ^ 64 - headersLen data % 2 ^ 64) % 2 ^ 64
    let (padding, pcg) := appendPingAndPadding (maxStreamDatacnt - data.length) spare pcg
    let (items, pcg) := permutateVec (data.map .crypto ++ padding) pcg
    .ok ⟨sni, data, items, pcg⟩

/-- The frame that is taken out of the queue for a packet with `left` bytes left, and the queue without it. -/
def Pops (s : TxStrm) (left cryptoOffset : Nat) (fr : TxFrame) (queue : List TxFrame) : Prop :=
  s.unackedOffset s.queue = .ok (some cryptoOffset) ∧ overhead left cryptoOffset < left ∧
    ∃ (h : cryptoOffset < 2 ^ 62) (room : Nat),
      Pkt.cryptoMaxDatalen ⟨cryptoOffset, h⟩ (left - overhead left cryptoOffset) (left - overhead left cryptoOffset) = some room ∧
        s.streamfrqPop room = .ok (some fr, queue)

/-- The assertions of `conn_cut_crypto_frame` on what `ngtcp2_vec_split` has done. -/
def CutAsserted (fr : TxFrame) (removed : Piece) : Prop :=
  ∀ v vs, fr.data = v :: vs →
    let n := removed.offset - fr.offset + removed.vec.len
    let ndatacnt := if v.len = n then vs.length else vs.length + 1
    ndatacnt ≠ 0 → (vecSplit ndatacnt (v :: vs) n).2.length = ndatacnt ∧ (vecSplit ndatacnt (v :: vs) n).1.length = 1

/-- The frame that is written for an item. -/
inductive Shows : Item → Pkt.Frame → Prop
  | crypto {p : Piece} {fr : Pkt.Stream} (hoff : fr.offset.1 = p.offset) (hdata : fr.data.bytes = p.vec.bytes) :
      Shows (.crypto p) (.crypto fr)
  | ping : Shows .ping .ping
  | padding (len : Nat) : Shows (.padding len) (.padding len)

/-- The loop of `conn_write_handshake_pkt` that writes the items. -/
def encodeFrames : Pkt.Ppe → List Pkt.Frame → Zngtcp2.Rv × Pkt.Ppe
  | ppe, [] => (.ok, ppe)
  | ppe, fr :: frs =>
      match ppe.encodeFrame fr with
      | (.ok, ppe) => encodeFrames ppe frs
      | r => r

/-- The pieces are the bytes of the frames that are kept, each once, and these and what is put back into the queue
those of the frame taken out of it; all of them fit their array, the overhead and the packet. -/
structure Crumbles (left cryptoOffset : Nat) (fr : TxFrame) (queue : List TxFrame) (c : Crumbled) : Prop where
  pieces : (sentCells (Crumble.written c.items)).Perm (recordedCells c.sni.recorded)
  once : ((recordedCells c.sni.recorded).map Prod.fst).Nodup
  back : ∃ back, c.sni.queue.Perm (back ++ queue) ∧ (recordedCells c.sni.recorded ++ recordedCells back).Perm (frameCells fr)
  length : c.items.length ≤ maxStreamDatacnt
  charged : headersLen c.data ≤ overhead left cryptoOffset + c.sni.removedLen
  fits : (c.items.map Item.encodedLen).sum ≤ left
  written : ∀ ppe : Pkt.Ppe, ppe.Reachable → ppe.left = left → ppe.cap ≤ Pkt.Ppe.maxTxUdpPayloadSize →
    ∀ frs, List.Forall₂ Shows c.items frs → (encodeFrames ppe frs).1 = .ok

theorem crumbleInitialCrypto_eq (s : TxStrm) (pcg : Pcg32) (left cryptoOffset : Nat) :
    crumbleInitialCrypto s pcg left cryptoOffset =
      if left ≤ overhead left cryptoOffset then .ok ⟨s.queue, pcg, none⟩
      else if h : cryptoOffset < 2 ^ 62 then
        match Pkt.cryptoMaxDatalen ⟨cryptoOffset, h⟩ (left - overhead left cryptoOffset) (left - overhead left cryptoOffset) with
        | none => .ok ⟨s.queue, pcg, none⟩
        | some room => s.streamfrqPop room >>= fun r =>
            match r with
            | (none, queue) => .ok ⟨queue, pcg, none⟩
            | (some fr, queue) => crumbleFrame s fr queue pcg left cryptoOffset >>= fun c =>
                .ok ⟨c.sni.queue, c.pcg, some ⟨Crumble.written c.items, c.sni.recorded⟩⟩
      else .error (.fault .assertion) := by
  have hover : (1 + uvarintlen (cryptoOffset + left - 1) + uvarintlen left) * 10 = overhead left cryptoOffset := rfl
  simp only [crumbleInitialCrypto, hover]
  split
  · rfl
  · split
    · cases Pkt.cryptoMaxDatalen ⟨cryptoOffset, _⟩ (left - overhead left cryptoOffset) (left - overhead left cryptoOffset) with
      | none => rfl
      | some room =>
          simp only
          congr 1
          funext r
          obtain ⟨_ | fr, queue⟩ := r
          · rfl
          · simp only [crumbleFrame]
            split
            · rfl
            · cases splitServerName s fr queue pcg with
              | error stop => rfl
              | ok sni => rfl
    · rfl

def Failed (stop : Stop) : Prop :=
  ∃ rv, stop = .failed rv

theorem unackedOffset_ok {S : List UInt8} {s : TxStrm} (hs : s.acked.Wf S.length) {queue : List TxFrame}
    (hq : ∀ fr ∈ queue, Good S fr) : ∃ off, s.unackedOffset queue = .ok off := by
  induction queue with
  | nil => exact ⟨none, rfl⟩
  | cons fr rest ih =>
      have hfr := hq fr List.mem_cons_self
      obtain ⟨gap, hgap, -⟩ := hs.unackedRangeAfter_spec (Nat.le_trans (Nat.le_add_right fr.offset fr.datalen) hfr.le)
      rw [unackedOffset, hgap]
      simp only
      split
      · exact ⟨_, rfl⟩
      · split
        · exact ⟨_, rfl⟩
        · split
          · exact ⟨_, rfl⟩
          · exact ih fun g hg => hq g (List.mem_cons_of_mem fr hg)

theorem framePieces_starts {S : List UInt8} {fr : TxFrame} (hfr : Good S fr) : Starts fr.offset (framePieces fr) := by
  rw [framePieces]
  cases htx : fr.txbuf with
  | some txbuf => exact ⟨_, [], rfl, rfl⟩
  | none =>
      have hne := (hfr.vecsOk htx).ne_nil
      cases hdata : fr.data with
      | nil => exact absurd hdata hne
      | cons v vs => exact ⟨⟨fr.offset, v⟩, pieces (fr.offset + v.len) vs, rfl, rfl⟩

theorem pieces_before (offset : Nat) (data : List Vec) : Before (offset + vecLen data) (pieces offset data) := by
  induction data generalizing offset with
  | nil => exact List.forall_mem_nil _
  | cons v vs ih =>
      rw [pieces, vecLen_cons, ← Nat.add_assoc]
      exact List.forall_mem_cons.mpr ⟨Nat.le_add_right _ _, ih (offset + v.len)⟩

theorem framePieces_before (fr : TxFrame) : Before fr.endOff (framePieces fr) := by
  rw [framePieces]
  cases htx : fr.txbuf with
  | some txbuf =>
      intro p hp
      rw [List.mem_singleton.mp hp, TxFrame.endOff, TxFrame.datalen, TxFrame.bytes_of_txbuf htx]
      exact Nat.le_refl _
  | none =>
      rw [TxFrame.endOff, TxFrame.datalen_of_data htx]
      exact pieces_before fr.offset fr.data

theorem pieces_length (offset : Nat) (data : List Vec) : (pieces offset data).length = data.length := by
  induction data generalizing offset with
  | nil => rfl
  | cons v vs ih => rw [pieces, List.length_cons, List.length_cons, ih]

theorem framePieces_length {S : List UInt8} {fr : TxFrame} (hfr : Good S fr) : (framePieces fr).length ≤ maxStreamDatacnt := by
  rw [framePieces]
  cases htx : fr.txbuf with
  | some txbuf => exact Nat.succ_le_of_lt (Nat.succ_pos _)
  | none =>
      rw [pieces_length]
      exact (hfr.vecsOk htx).length_le

section Cut

variable {S : List UInt8} {fr : TxFrame} {queue : List TxFrame} {v : Vec} {vs : List Vec} {l k : Nat}

/-- The part that is removed, as a frame of its own. -/
def removedFrame (fr : TxFrame) (v : Vec) (l k : Nat) : TxFrame :=
  ⟨fr.offset + l, false, [(v.drop l).take k], none⟩

theorem removedFrame_cells : recordedCells [removedFrame fr v l k] = (Piece.mk (fr.offset + l) ((v.drop l).take k)).cells := by
  simp [recordedCells, frameCells, removedFrame, TxFrame.bytes, Piece.cells]

/-- `conn_cut_crypto_frame` puts the removed part back into the queue, or the queue refuses it. -/
theorem cutCryptoFrame_ends (hdata : fr.data = v :: vs) (hl : 0 < l) (hle : l + k ≤ v.len) (queue : List TxFrame) :
    Ends Failed (fun p => p.2.Perm (removedFrame fr v l k :: queue))
      (cutCryptoFrame fr ⟨fr.offset + l, (v.drop l).take k⟩ queue) := by
  have hlen : ((v.drop l).take k).len = k := (v.drop l).take_len (by rw [v.drop_len]; omega)
  have hoff : fr.offset + l - fr.offset = l := Nat.add_sub_cancel_left _ _
  rw [cutCryptoFrame, hdata]
  simp only [hlen, hoff]
  rw [if_neg (by omega)]
  cases hpush : streamfrqPush queue ⟨fr.offset + l, false, [(v.drop l).take k], none⟩ with
  | error stop =>
      rw [streamfrqPush] at hpush
      split at hpush
      · cases hpush
        exact ⟨_, rfl⟩
      · split at hpush
        · cases hpush
        · cases hpush
          exact ⟨_, rfl⟩
  | ok queue' => exact kslInsert_perm (streamfrqPush_ok hpush).2

theorem vecSplit_front (hn : 0 < l) (hle : l ≤ v.len) (hpos : ∀ w ∈ vs, 0 < w.len) :
    (vecSplit (if v.len = l then vs.length else vs.length + 1) (v :: vs) l).1.length = 1 := by
  by_cases heq : v.len = l
  · rw [if_pos heq, vecSplit, if_pos (Nat.le_of_eq heq), heq, Nat.sub_self, vecSplit_zero (Nat.le_refl _) hpos]
    rfl
  · rw [if_neg heq, vecSplit, if_neg (by omega), if_neg (by omega), if_neg (by omega)]
    rfl

theorem cutAsserted (hfr : Good S fr) (htx : fr.txbuf = none) (hdata : fr.data = v :: vs) (hl : 0 < l) (hle : l + k ≤ v.len) :
    CutAsserted fr ⟨fr.offset + l, (v.drop l).take k⟩ := by
  have hlen : ((v.drop l).take k).len = k := (v.drop l).take_len (by rw [v.drop_len]; omega)
  have hoff : fr.offset + l - fr.offset = l := Nat.add_sub_cancel_left _ _
  have hpos : ∀ w ∈ vs, 0 < w.len := fun w hw => (hfr.vecsOk htx).pos w (hdata ▸ List.mem_cons_of_mem v hw)
  intro v' vs' hdata'
  rw [hdata] at hdata'
  cases hdata'
  simp only [hlen, hoff]
  intro hne
  refine ⟨?_, vecSplit_front (by omega) hle hpos⟩
  rw [vecSplit_behind hle (by omega) hpos]
  split
  · rfl
  · rfl

end Cut

/-- What splitting at the server name, or removing a part of it, leaves. -/
structure SniFits (fr : TxFrame) (queue : List TxFrame) (sni : Sni) : Prop where
  length : sni.data.length ≤ maxStreamDatacnt
  starts : Starts fr.offset sni.data
  before : Before fr.endOff sni.data
  back : ∃ back, sni.queue.Perm (back ++ queue) ∧ (recordedCells sni.recorded ++ recordedCells back).Perm (frameCells fr) ∧
    (recordedCells back).length = sni.removedLen

/-- The assertions of the helpers that split and cut hold at the server name that is found. -/
structure NameAsserted (fr : TxFrame) (pcg : Pcg32) (v : Vec) (pos len : Nat) : Prop where
  split : ∃ data, splitVecAt (pos + len / 2) (framePieces fr) = some data
  remove : ∃ data removed pcg', removeVecPartial pos len pcg (framePieces fr) = some (data, removed, pcg') ∧
    CutAsserted fr removed ∧ ∃ l k, 0 < l ∧ 0 < k ∧ l + k ≤ v.len ∧ removed = ⟨fr.offset + l, (v.drop l).take k⟩

theorem framePieces_cons {fr : TxFrame} {v : Vec} {vs : List Vec} (htx : fr.txbuf = none) (hdata : fr.data = v :: vs) :
    framePieces fr = ⟨fr.offset, v⟩ :: pieces (fr.offset + v.len) vs := by
  rw [framePieces, htx, hdata]
  rfl

theorem nameAsserted {S : List UInt8} {fr : TxFrame} {v : Vec} {vs : List Vec} (hfr : Good S fr) (htx : fr.txbuf = none)
    (hdata : fr.data = v :: vs) {pos len : Nat} (hname : findServerName v.bytes = some (pos, len)) (hlen : 1 < len)
    (pcg : Pcg32) : NameAsserted fr pcg v pos len := by
  obtain ⟨hpos, hle⟩ := findServerName_within hname
  change pos + len ≤ v.len at hle
  constructor
  · rw [framePieces_cons htx hdata]
    exact ⟨_, splitVecAt_eq (p := ⟨fr.offset, v⟩) (show pos + len / 2 < v.len by omega)⟩
  · rw [framePieces_cons htx hdata]
    obtain ⟨⟨data, removed, pcg'⟩, hremove⟩ :=
      removeVecPartial_isSome (p := ⟨fr.offset, v⟩) (pieces (fr.offset + v.len) vs) pcg hpos hle hlen
    obtain ⟨-, l, k, hl, hk, hlk, rfl⟩ := removeVecPartial_spec hremove
    exact ⟨data, _, pcg', hremove, cutAsserted hfr htx hdata hl hlk, l, k, hl, hk, hlk, rfl⟩

theorem splitServerName_ends {S : List UInt8} {s : TxStrm} (hs : s.acked.Wf S.length) {fr : TxFrame} {queue : List TxFrame}
    (hfr : Good S fr) (hq : ∀ g ∈ queue, Good S g) (pcg : Pcg32) :
    Ends Failed (SniFits fr queue) (splitServerName s fr queue pcg) := by
  have hcells : (recordedCells [fr] ++ recordedCells []).Perm (frameCells fr) := by simp [recordedCells]
  have hsame : SniFits fr queue ⟨framePieces fr, [fr], queue, pcg, 0⟩ :=
    ⟨framePieces_length hfr, framePieces_starts hfr, framePieces_before fr, [], List.Perm.refl _, hcells, rfl⟩
  rw [splitServerName]
  simp only
  split
  · rename_i v vs htx hdata
    have hcons := framePieces_cons htx hdata
    split
    · exact hsame
    · rename_i hroom
      split
      · exact hsame
      · rename_i pos len hname
        split
        · exact hsame
        · rename_i hlen
          obtain ⟨⟨data, hsplit⟩, data', removed, pcg', hremove, -, l, k, hl, hk, hlk, rfl⟩ :=
            nameAsserted hfr htx hdata hname (Nat.not_le.mp hlen) pcg
          obtain ⟨off, hoff⟩ := unackedOffset_ok hs hq
          have hpieces : (framePieces fr).length = vs.length + 1 := by rw [hcons, List.length_cons, pieces_length]
          rw [hoff]
          simp only [bind, Except.bind]
          split
          · rw [hsplit]
            have hle := (findServerName_within hname).2
            rw [hcons, splitVecAt_eq (p := ⟨fr.offset, v⟩) (show pos + len / 2 < v.bytes.length by omega)] at hsplit
            obtain rfl := Option.some.inj hsplit
            have hfirst : (⟨fr.offset, v⟩ :: pieces (fr.offset + v.len) vs : List Piece)[0]? = some ⟨fr.offset, v⟩ := rfl
            refine ⟨?_, ?_, ?_, [], List.Perm.refl _, hcells, rfl⟩
            · simp only [List.length_append, List.length_set, List.length_cons, pieces_length, List.length_nil]
              omega
            · exact set_split_starts (hcons ▸ framePieces_starts hfr) hfirst _
            · exact set_split_before (hcons ▸ framePieces_before fr) hfirst (show pos + len / 2 ≤ v.bytes.length by omega)
          · rw [hremove]
            simp only
            have hcut := cutCryptoFrame_ends hdata hl hlk queue
            cases hrun : cutCryptoFrame fr ⟨fr.offset + l, (v.drop l).take k⟩ queue with
            | error stop =>
                rw [hrun] at hcut
                exact hcut
            | ok p =>
                obtain ⟨recorded, queue'⟩ := p
                rw [hrun] at hcut
                obtain ⟨-, -, hsum⟩ := cutCryptoFrame_good hfr htx hdata hl hk hlk rfl hq hrun
                rw [hcons] at hremove
                obtain ⟨hcnt, hstarts, hbefore⟩ := removeVecPartial_left hremove (hcons ▸ framePieces_before fr)
                rw [pieces_length] at hcnt
                refine ⟨?_, hstarts, hbefore, [removedFrame fr v l k], hcut, ?_, ?_⟩
                · simp only
                  omega
                · rw [removedFrame_cells]
                  exact hsum
                · rw [removedFrame_cells, Piece.cells, cells_length]
                  rfl
  · exact hsame

theorem encodeFrames_ok {ppe : Pkt.Ppe} (h : ppe.Reachable) (hcap : ppe.cap ≤ Pkt.Ppe.maxTxUdpPayloadSize)
    {frs : List Pkt.Frame} (hcopied : ∀ fr ∈ frs, fr.zeroCopy = none) (hpos : ∀ fr ∈ frs, 0 < fr.encodedLen)
    (hle : (frs.map Pkt.Frame.encodedLen).sum ≤ ppe.left) : (encodeFrames ppe frs).1 = .ok := by
  induction frs generalizing ppe with
  | nil => rfl
  | cons fr frs ih =>
      obtain ⟨hfr, hfrs⟩ := List.forall_mem_cons.mp hcopied
      obtain ⟨hfrpos, hfrspos⟩ := List.forall_mem_cons.mp hpos
      rw [List.map_cons, List.sum_cons] at hle
      have hlen : fr.encodedLen = fr.control.length := by rw [Pkt.Frame.encodedLen, hfr]; rfl
      have hstorage := h.plainLeft_ge hcap
      have hleft : ppe.left = ppe.packetPlainLeft := rfl
      have hrun : ppe.encodeFrame fr =
          (.ok, { ppe with plain := ppe.plain ++ fr.control, payloadlen := ppe.payloadlen + fr.control.length }) := by
        rw [Pkt.Ppe.encodeFrame_eq, if_neg (by omega), hfr]
        simp only
        rw [Pkt.Ppe.encodeCopied, if_neg (by omega)]
      have hnext := h.frame fr
      rw [hrun] at hnext
      rw [encodeFrames, hrun]
      apply ih hnext hcap hfrs hfrspos
      have hpayload : ∀ n, 0 < n → n ≤ ppe.packetPlainLeft →
          Pkt.Ppe.packetPlainLeft { ppe with plain := ppe.plain ++ fr.control, payloadlen := ppe.payloadlen + n } =
            ppe.packetPlainLeft - n := by
        intro n hn hle
        rw [Pkt.Ppe.packetPlainLeft] at hle ⊢
        rw [Pkt.Ppe.packetPlainLeft]
        simp only
        split_ifs at hle ⊢ <;> omega
      rw [Pkt.Ppe.left, hpayload _ (by omega) (by omega)]
      omega

theorem uvarintlen_varint (n : Pkt.Varint) : uvarintlen n.1 = Pkt.putUvarintlen n := by
  rw [uvarintlen, dif_pos n.2]

theorem Shows.zeroCopy {i : Item} {fr : Pkt.Frame} (h : Shows i fr) : fr.zeroCopy = none := by
  cases h <;> rfl

theorem Shows.encodedLen {i : Item} {fr : Pkt.Frame} (h : Shows i fr) : fr.encodedLen = i.encodedLen := by
  cases h with
  | @crypto p fr hoff hdata =>
      have hvec : p.vec.len = fr.data.len.1 := by rw [Vec.len, ← hdata]; rfl
      have hlen : (Pkt.Frame.crypto fr).encodedLen = (Pkt.encodeCrypto fr).length := rfl
      rw [hlen, Pkt.encodeCrypto_length, Item.encodedLen, Piece.encodedLen, Piece.headerLen, ← hoff, hvec, uvarintlen_varint,
        uvarintlen_varint]
      rfl
  | ping => rfl
  | padding len => exact List.length_replicate

theorem shows_sum {items : List Item} {frs : List Pkt.Frame} (h : List.Forall₂ Shows items frs) :
    (frs.map Pkt.Frame.encodedLen).sum = (items.map Item.encodedLen).sum := by
  induction h with
  | nil => rfl
  | cons h _ ih => rw [List.map_cons, List.map_cons, List.sum_cons, List.sum_cons, ih, h.encodedLen]

theorem shows_mem {items : List Item} {frs : List Pkt.Frame} (h : List.Forall₂ Shows items frs) :
    ∀ fr ∈ frs, ∃ i ∈ items, Shows i fr := by
  induction h with
  | nil => exact List.forall_mem_nil _
  | @cons i fr items frs h _ ih =>
      refine List.forall_mem_cons.mpr ⟨⟨i, List.mem_cons_self, h⟩, fun g hg => ?_⟩
      obtain ⟨j, hj, hshows⟩ := ih g hg
      exact ⟨j, List.mem_cons_of_mem i hj, hshows⟩

section Crumble

variable {S : List UInt8} {s : TxStrm} {fr : TxFrame} {queue : List TxFrame} {left cryptoOffset : Nat}

theorem Pops.good (h : Pops s left cryptoOffset fr queue) (hs : s.acked.Wf S.length) (hq : ∀ g ∈ s.queue, Good S g) :
    Good S fr ∧ (∀ g ∈ queue, Good S g) ∧ fr.offset = cryptoOffset ∧
      overhead left cryptoOffset + (1 + uvarintlen cryptoOffset + uvarintlen fr.datalen) + fr.datalen ≤ left := by
  obtain ⟨hoff, hlt, h62, room, hroom, hpop⟩ := h
  obtain ⟨hqueue, hfr⟩ := streamfrqPop_good hs hq hpop
  obtain ⟨hgood, -, hle, hstart⟩ := hfr fr rfl
  refine ⟨hgood, hqueue, hstart _ hoff, ?_⟩
  rw [Pkt.cryptoMaxDatalen] at hroom
  split at hroom
  · cases hroom
  · rename_i hmin
    cases hroom
    have hsmall : fr.datalen < 2 ^ 62 := by
      rw [Pkt.lenMaxDatalen] at hle
      split_ifs at hle <;> omega
    have hfit := Pkt.lenMaxDatalen_spec (by omega) ⟨fr.datalen, hsmall⟩ hle
    rw [← uvarintlen_varint] at hfit hmin
    rw [← uvarintlen_varint ⟨cryptoOffset, h62⟩] at hfit
    simp only at hfit hmin
    omega

theorem SniFits.once {sni : Sni} (h : SniFits fr queue sni) : ((recordedCells sni.recorded).map Prod.fst).Nodup := by
  obtain ⟨back, -, hcells, -⟩ := h.back
  have hall : ((frameCells fr).map Prod.fst).Nodup := by
    rw [List.nodup_iff_pairwise_ne, List.pairwise_map]
    exact (cells_ascending fr.offset fr.bytes).imp fun hlt => Nat.ne_of_lt hlt
  rw [← (hcells.map Prod.fst).nodup_iff, List.map_append] at hall
  exact (List.nodup_append.mp hall).1

/-- Splitting at random makes few pieces of few, and leaves many as they are. -/
theorem split_spec {sni : Sni} (h : SniFits fr queue sni) {r : List Piece × Pcg32}
    (hr : (if sni.data.length < 10 + 1 then splitVecRand (10 - (sni.data.length - 1)) sni.data sni.pcg else (sni.data, sni.pcg)) = r) :
    Starts fr.offset r.1 ∧ Before fr.endOff r.1 ∧ (dataCells r.1).Perm (dataCells sni.data) ∧ r.1.length ≤ maxStreamDatacnt ∧
      (sni.data.length ≤ 11 → r.1.length ≤ 10 + 1) ∧ (11 < sni.data.length → r.1 = sni.data) := by
  have hpos : 0 < sni.data.length := by
    obtain ⟨p, ps, heq, -⟩ := h.starts
    rw [heq]
    exact Nat.succ_pos _
  split at hr
  · subst hr
    have hlen := splitVecRand_length (10 - (sni.data.length - 1)) sni.data sni.pcg
    refine ⟨splitVecRand_starts _ _ h.starts, splitVecRand_before _ _ h.before, splitVecRand_cells _ _ _, ?_, ?_, ?_⟩
    · rw [maxStreamDatacnt]
      omega
    · omega
    · omega
  · subst hr
    exact ⟨h.starts, h.before, List.Perm.refl _, h.length, fun hle => hle, fun _ => rfl⟩

/-- The headers are charged for at most eleven pieces, and for more if they do not take more than that. -/
def Charged (left cryptoOffset : Nat) (sni : Sni) : Prop :=
  sni.data.length ≤ 11 ∨ headersLen sni.data ≤ overhead left cryptoOffset + sni.removedLen

instance (left cryptoOffset : Nat) (sni : Sni) : Decidable (Charged left cryptoOffset sni) :=
  inferInstanceAs (Decidable (_ ∨ _))

/-- The lengths of what is listed, if the headers are charged for. -/
theorem items_fit {data : List Piece} {removedLen spare fuel : Nat} {pcg pcg' : Pcg32} (hstart : Starts cryptoOffset data)
    (hdata : dataLen data + removedLen = fr.datalen)
    (hpop : overhead left cryptoOffset + (1 + uvarintlen cryptoOffset + uvarintlen fr.datalen) + fr.datalen ≤ left)
    (hcharged : headersLen data ≤ overhead left cryptoOffset + removedLen)
    (hspare : spare = (overhead left cryptoOffset + removedLen + 2 ^ 64 - headersLen data % 2 ^ 64) % 2 ^ 64) :
    ((permutateVec (data.map .crypto ++ (appendPingAndPadding fuel spare pcg).1) pcg').1.map Item.encodedLen).sum ≤ left := by
  have hpadding := appendPingAndPadding_sum fuel spare pcg
  obtain ⟨p, ps, rfl, hp⟩ := hstart
  have hfirst := uvarintlen_mono (n := p.vec.len) (m := fr.datalen) (by
    have := len_le_dataLen (List.mem_cons_self (a := p) (l := ps))
    omega)
  rw [permutateVec_sum, List.map_append, List.sum_append, encodedLen_sum, Piece.headerLen, hp]
  omega

/-- The pieces are not more than ten besides the first one, and no piece needs longer fields than it was charged for. -/
theorem charged_of_few {data : List Piece} {removedLen : Nat} (hlen : data.length ≤ 10 + 1) (hb : Before fr.endOff data)
    (hoff : fr.offset = cryptoOffset) (hdata : dataLen data + removedLen = fr.datalen)
    (hpop : overhead left cryptoOffset + (1 + uvarintlen cryptoOffset + uvarintlen fr.datalen) + fr.datalen ≤ left) :
    headersLen data ≤ overhead left cryptoOffset := by
  refine headersLen_le hb hlen ?_ ?_
  · rw [TxFrame.endOff]
    omega
  · intro p hp
    have := len_le_dataLen hp
    omega

/-- From the frame on, `conn_crumble_initial_crypto` only fails as the queue does; what it lists is right exactly if the
headers are charged for. -/
theorem crumbleFrame_ends (hs : s.acked.Wf S.length) (hq : ∀ g ∈ s.queue, Good S g) (h : Pops s left cryptoOffset fr queue)
    (pcg : Pcg32) :
    Ends Failed (fun c => SplitAsserted (10 - (c.sni.data.length - 1)) c.sni.data c.sni.pcg ∧
        (Crumbles left cryptoOffset fr queue c ↔ Charged left cryptoOffset c.sni))
      (crumbleFrame s fr queue pcg left cryptoOffset) := by
  obtain ⟨hfr, hqueue, hoff, hpop⟩ := h.good hs hq
  rw [crumbleFrame, if_neg (not_not.mpr hoff)]
  have hends := splitServerName_ends hs hfr hqueue pcg
  cases hsni : splitServerName s fr queue pcg with
  | error stop =>
      rw [hsni] at hends
      exact hends
  | ok sni =>
      rw [hsni] at hends
      have hfits : SniFits fr queue sni := hends
      have hsame := (splitServerName_good hfr hqueue hsni).same
      simp only [bind, Except.bind]
      generalize hr : (if sni.data.length < 10 + 1 then splitVecRand (10 - (sni.data.length - 1)) sni.data sni.pcg
        else (sni.data, sni.pcg)) = r
      obtain ⟨hstart, hbefore, hcells, hlen, hfew, hmany⟩ := split_spec hfits hr
      obtain ⟨data, pcg₁⟩ := r
      simp only at hstart hbefore hcells hlen hfew hmany ⊢
      generalize hspare : (overhead left cryptoOffset + sni.removedLen + 2 ^ 64 - headersLen data % 2 ^ 64) % 2 ^ 64 = spare
      generalize hpad : appendPingAndPadding (maxStreamDatacnt - data.length) spare pcg₁ = padding
      obtain ⟨back, hback, hframe, hremoved⟩ := hfits.back
      have hdatalen : dataLen data + sni.removedLen = fr.datalen := by
        have h₁ := (hcells.trans hsame).length_eq
        have h₂ := hframe.length_eq
        rw [List.length_append, frameCells, cells_length] at h₂
        rw [dataCells_length] at h₁
        rw [TxFrame.datalen]
        omega
      have hperm := permutateVec_perm (data.map .crypto ++ padding.1) padding.2
      have hcrypto : ∀ i ∈ padding.1, ∀ p, i ≠ .crypto p := hpad ▸ appendPingAndPadding_not_crypto _ _ _
      have hpos : ∀ i ∈ padding.1, 0 < i.encodedLen := hpad ▸ appendPingAndPadding_pos _ _ _
      have hcnt : padding.1.length ≤ maxStreamDatacnt - data.length := hpad ▸ appendPingAndPadding_length _ _ _
      refine ⟨splitVecRand_asserted _ _ hfits.starts, fun hc => ?_, fun hcharged => ?_⟩
      · by_cases hle : sni.data.length ≤ 11
        · exact Or.inl hle
        · have hcharged : headersLen data ≤ overhead left cryptoOffset + sni.removedLen := hc.charged
          rw [hmany (Nat.not_le.mp hle)] at hcharged
          exact Or.inr hcharged
      · have hall : headersLen data ≤ overhead left cryptoOffset + sni.removedLen := by
          by_cases hle : sni.data.length ≤ 11
          · exact Nat.le_add_right_of_le (charged_of_few (hfew hle) hbefore hoff hdatalen hpop)
          · obtain hle' | hcharged := hcharged
            · exact absurd hle' hle
            · rwa [hmany (Nat.not_le.mp hle)]
        have hsum : ((permutateVec (data.map .crypto ++ padding.1) padding.2).1.map Item.encodedLen).sum ≤ left := by
          rw [← hpad]
          exact items_fit (hoff ▸ hstart) hdatalen hpop hall hspare.symm
        refine ⟨?_, hfits.once, ⟨back, hback, hframe⟩, ?_, hall, hsum, ?_⟩
        · refine ((?_ : List.Perm _ _).trans hcells).trans hsame
          rw [← written_cells data padding.1 hcrypto]
          exact (hperm.filterMap _).flatMap_right _
        · rw [hperm.length_eq, List.length_append, List.length_map]
          omega
        · intro ppe hreach hleft hcap frs hshows
          refine encodeFrames_ok hreach hcap ?_ ?_ ?_
          · intro g hg
            obtain ⟨i, -, hi⟩ := shows_mem hshows g hg
            exact hi.zeroCopy
          · intro g hg
            obtain ⟨i, hi, hshow⟩ := shows_mem hshows g hg
            rw [hshow.encodedLen]
            rcases List.mem_append.mp (hperm.subset hi) with hi | hi
            · obtain ⟨p, -, rfl⟩ := List.mem_map.mp hi
              rw [Item.encodedLen, Piece.encodedLen, Piece.headerLen]
              omega
            · exact hpos i hi
          · rw [shows_sum hshows, hleft]
            exact hsum

end Crumble

theorem run_inv {pcg : Pcg32} {inputs : List Input} {s : State} (hfits : Guarded step Fits (State.new pcg) inputs)
    (hrun : run step (State.new pcg) inputs = .ok s) : Inv s :=
  run_preserves (fun _ _ _ hs hg h => step_inv hs hg h) (new_inv pcg) hfits hrun

/-- A ClientHello with the server name of four bytes and nothing else. -/
def sampleHello : List UInt8 :=
  [1, 0, 0, 53, 3, 3] ++ List.replicate 32 9 ++ [0, 0, 0, 0, 0, 13, 0, 0, 0, 9, 0, 7, 0, 0, 4, 97, 98, 99, 100]

/-- The frame taken out for a packet with `left` bytes left, of which `room` are for data, and what it is crumbled to. -/
def sampleCrumble (inputs : List Input) (room left : Nat) : Option (State × TxFrame × List TxFrame × Crumbled) := do
  let s ← (run step (State.new ⟨7⟩) inputs).toOption
  let (fr, queue) ← (s.strm.streamfrqPop room).toOption
  let fr ← fr
  let c ← (crumbleFrame s.strm fr queue ⟨7⟩ left 0).toOption
  if s.strm.unackedOffset s.strm.queue = .ok (some 0) then some (s, fr, queue, c) else none

theorem sampleCrumble_spec {inputs : List Input} {room left : Nat} {s : State} {fr : TxFrame} {queue : List TxFrame} {c : Crumbled}
    (h : sampleCrumble inputs room left = some (s, fr, queue, c)) (hlt : overhead left 0 < left)
    (hroom : Pkt.cryptoMaxDatalen ⟨0, Nat.two_pow_pos 62⟩ (left - overhead left 0) (left - overhead left 0) = some room) :
    run step (State.new ⟨7⟩) inputs = .ok s ∧ Pops s.strm left 0 fr queue ∧ crumbleFrame s.strm fr queue ⟨7⟩ left 0 = .ok c := by
  obtain ⟨s', hrun, h⟩ := Option.bind_eq_some_iff.mp h
  obtain ⟨⟨res, queue'⟩, hpop, h⟩ := Option.bind_eq_some_iff.mp h
  obtain ⟨fr', hfr, h⟩ := Option.bind_eq_some_iff.mp h
  obtain ⟨c', hc, h⟩ := Option.bind_eq_some_iff.mp h
  split at h
  · rename_i hoff
    cases h
    cases hfr
    exact ⟨ok_of_toOption hrun, ⟨hoff, hlt, Nat.two_pow_pos 62, room, hroom, ok_of_toOption hpop⟩, ok_of_toOption hc⟩
  · cases h

/-- The ClientHello in front of other data. -/
def cutInputs : List Input :=
  [.submit ⟨false, sampleHello⟩ 4096, .submit ⟨false, List.replicate 100 5⟩ 8192]

/-- Twelve submissions of 520 bytes, each in memory of its own. -/
def scattered : List Input :=
  (List.range 12).map fun i => .submit ⟨false, List.replicate 520 5⟩ (4096 * (i + 1))

end Zngtcp2.CryptoTx
