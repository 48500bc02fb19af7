import Zngtcp2.Rx.Conservation
import Mathlib.Algebra.Order.BigOperators.Group.Finset

namespace Zngtcp2.Rx

open Reorder Lib.Run

/-- What the peer did and was told: how much it sent on each stream, the sizes that are final, the
limits of streams that were promised to it, those that a stream starts with, and the limit of the
connection. -/
structure Ledger where
  server : Bool
  params : LocalParams
  sent : Nat → Nat
  final : Nat → Prop
  promised : Nat → Nat → Prop
  initial : Nat → Nat
  limit : Nat

/-- The peer keeps to what it was told. -/
structure Ledger.Valid (g : Ledger) : Prop where
  stream : ∀ id, g.promised id (g.sent id)
  conn : ∀ ids : Finset Nat, ∑ id ∈ ids, g.sent id ≤ g.limit

/-- The frame ends within what was sent, with FIN at its end. -/
def Ledger.Stream (g : Ledger) (fr : StreamFrame) : Prop :=
  fr.endOffset ≤ g.sent fr.streamId ∧ (fr.fin = true → g.final fr.streamId ∧ fr.endOffset = g.sent fr.streamId)

def Ledger.Reset (g : Ledger) (fr : ResetStream) : Prop :=
  g.final fr.streamId ∧ fr.finalSize = g.sent fr.streamId

/-- The environment does not return the errors that are about the peer. -/
def Source.Polite (source : Source) : Prop :=
  ∀ rv, source = .packet rv ∨ source = .other (.fails rv) → rv ≠ .flowControl ∧ rv ≠ .finalSize

def Source.politeBool : Source → Bool
  | .packet rv | .other (.fails rv) => rv ≠ .flowControl && rv ≠ .finalSize
  | .other _ => true

instance (source : Source) : Decidable (Source.Polite source) :=
  decidable_of_iff (Source.politeBool source = true) (by
    cases source with
    | packet rv => simp [Source.Polite, Source.politeBool]
    | other alloc => cases alloc <;> simp [Source.Polite, Source.politeBool])

/-- The frame that waits for the return of a callback. -/
def Ledger.Pends (g : Ledger) : Ctl → Prop
  | .streamOpen (.stream fr env) => g.Stream fr ∧ Source.Polite env.reorder.source
  | .streamOpen (.reset fr _) => g.Reset fr
  | .streamOpen (.blocked fr) => fr.offset ≤ g.sent fr.streamId
  | .streamReset fr _ => g.Reset fr
  | .idle | .recvStreamData _ _ _ | .other => True

structure Ledger.Fits (g : Ledger) (strm : Strm) : Prop where
  last : strm.lastOffset ≤ g.sent strm.streamId
  max : ∀ n, g.promised strm.streamId n → n ≤ strm.maxOffset
  shut : strm.shutRd = true → g.final strm.streamId ∧ strm.lastOffset = g.sent strm.streamId
  unsent : strm.maxOffset ≤ strm.unsentMaxOffset

/-- No stream has gone beyond what was sent, and every promise is kept. -/
structure Honours (g : Ledger) (conn : Conn) : Prop where
  last : ∀ id, (conn.snap id).last ≤ g.sent id
  fits : ∀ id strm, conn.strms id = some strm → strm.streamId = id ∧ g.Fits strm
  fresh : ∀ id n, g.promised id n → id ∉ conn.opened → n ≤ g.initial id
  initial : ∀ id, conn.initialStreamRxOffset id = g.initial id
  own : conn.server = g.server ∧ conn.params = g.params
  limit : g.limit ≤ conn.maxOffset
  ctl : g.Pends conn.ctl

/-- A stop that is not for a limit or a final size. -/
def Polite (stop : Stop) : Prop :=
  stop ≠ .error .flowControl ∧ stop ≠ .error .finalSize

variable {g : Ledger} {conn conn' : Conn} {strm : Strm}

theorem Honours.of_eq (h : Honours g conn) (hstrms : conn'.strms = conn.strms) (hclosed : conn'.closed = conn.closed)
    (hopened : conn'.opened = conn.opened) (hserver : conn'.server = conn.server) (hparams : conn'.params = conn.params)
    (hmax : conn'.maxOffset = conn.maxOffset) (hctl : g.Pends conn'.ctl) : Honours g conn' := by
  refine ⟨fun id => ?_, ?_, ?_, ?_, ?_, ?_, hctl⟩
  · have hlast := h.last id
    simp only [Snap.last, Conn.snap, hstrms, hclosed] at hlast ⊢
    exact hlast
  · rw [hstrms]
    exact h.fits
  · rw [hopened]
    exact h.fresh
  · simp only [Conn.initialStreamRxOffset, Conn.localStream, hserver, hparams]
    exact h.initial
  · rw [hserver, hparams]
    exact h.own
  · rw [hmax]
    exact h.limit

theorem Honours.setStrm (h : Honours g conn) (hf : g.Fits strm) : Honours g (conn.setStrm strm) := by
  refine ⟨fun id => ?_, fun id s hs => ?_, h.fresh, h.initial, h.own, h.limit, h.ctl⟩
  · by_cases hid : id = strm.streamId
    · subst hid
      simp only [Snap.last, Conn.snap, Conn.setStrm, Function.update_self, Option.some_or, Option.map_some, Option.getD_some]
      exact hf.last
    · have hlast := h.last id
      simp only [Snap.last, Conn.snap, Conn.setStrm, Function.update_of_ne hid] at hlast ⊢
      exact hlast
  · by_cases hid : id = strm.streamId
    · subst hid
      simp only [Conn.setStrm, Function.update_self, Option.some.injEq] at hs
      subst hs
      exact ⟨rfl, hf⟩
    · simp only [Conn.setStrm, Function.update_of_ne hid] at hs
      exact h.fits id s hs

theorem Honours.closeStream (h : Honours g conn) (hf : g.Fits strm) : Honours g (conn.closeStream strm) := by
  refine ⟨fun id => ?_, fun id s hs => ?_, h.fresh, h.initial, h.own, h.limit, h.ctl⟩
  · by_cases hid : id = strm.streamId
    · subst hid
      simp only [Snap.last, Conn.snap, Conn.closeStream, Function.update_self, Option.none_or, Option.map_some, Option.getD_some]
      exact hf.last
    · have hlast := h.last id
      simp only [Snap.last, Conn.snap, Conn.closeStream, Function.update_of_ne hid] at hlast ⊢
      exact hlast
  · by_cases hid : id = strm.streamId
    · subst hid
      simp only [Conn.closeStream, Function.update_self] at hs
      cases hs
    · simp only [Conn.closeStream, Function.update_of_ne hid] at hs
      exact h.fits id s hs

theorem Honours.closeIf (h : Honours g conn) (hf : g.Fits strm) : Honours g (conn.closeStreamIfShutRdwr strm) := by
  unfold Conn.closeStreamIfShutRdwr
  split
  · exact h.closeStream hf
  · exact h

theorem Honours.idle (h : Honours g conn) : Honours g { conn with ctl := .idle } :=
  h.of_eq rfl rfl rfl rfl rfl rfl trivial

/-- The fields by which a stream fits are kept. -/
theorem Ledger.Fits.congr {strm' : Strm} (h : g.Fits strm) (hid : strm'.streamId = strm.streamId)
    (hlast : strm'.lastOffset = strm.lastOffset) (hmax : strm'.maxOffset = strm.maxOffset)
    (hshut : strm'.shutRd = strm.shutRd) (hunsent : strm'.unsentMaxOffset = strm.unsentMaxOffset) : g.Fits strm' := by
  refine ⟨?_, ?_, ?_, ?_⟩
  · rw [hid, hlast]
    exact h.last
  · rw [hid, hmax]
    exact h.max
  · rw [hid, hlast, hshut]
    exact h.shut
  · rw [hmax, hunsent]
    exact h.unsent

theorem polite_fault (f : Fault) : Polite (.fault f) := by
  simp [Polite]

theorem polite_notEnabled : Polite .notEnabled := by
  simp [Polite]

theorem Honours.release (h : Honours g conn) (rels : List Release) : Honours g (conn.release rels) :=
  h.of_eq rfl rfl rfl rfl rfl rfl h.ctl

theorem Honours.glitch (h : Honours g conn) (ts : Nat) : Ends Polite (Honours g) (conn.glitch ts) := by
  unfold Conn.glitch
  split
  · exact polite_fault _
  · exact h.of_eq rfl rfl rfl rfl rfl rfl h.ctl
  · simp [Ends, Polite]

theorem Honours.glitchUnless (h : Honours g conn) (isNew : Bool) (ts : Nat) :
    Ends Polite (Honours g) (conn.glitchUnless isNew ts) := by
  unfold Conn.glitchUnless
  split
  · exact h
  · exact h.glitch ts

theorem Honours.callRecvStreamData (h : Honours g conn) (strm : Strm) (offset : Nat) (data : List UInt8) (rxOffset : Nat)
    (popping : Option (Nat × Nat)) : Honours g (conn.callRecvStreamData strm offset data rxOffset popping) :=
  h.of_eq rfl rfl rfl rfl rfl rfl trivial

theorem Honours.emitPendingStreamData (h : Honours g conn) (hf : g.Fits strm) (rxOffset : Nat) :
    Ends Polite (Honours g) (conn.emitPendingStreamData strm rxOffset) := by
  unfold Conn.emitPendingStreamData
  split
  · exact (h.closeIf hf).idle
  · split
    · exact (h.closeIf hf).idle
    · split
      · exact polite_fault _
      · split
        · exact (h.closeIf hf).idle
        · exact polite_fault _
      · exact h.callRecvStreamData _ _ _ _ _

theorem Honours.returnRecvStreamData (h : Honours g conn) (hf : g.Fits strm) (rxOffset : Nat) (popping : Option (Nat × Nat)) :
    Ends Polite (Honours g) (conn.returnRecvStreamData strm rxOffset popping) := by
  cases popping with
  | none => exact h.emitPendingStreamData hf rxOffset
  | some p =>
      unfold Conn.returnRecvStreamData
      simp only
      split
      · exact (h.closeIf hf).idle
      · split
        · exact polite_fault _
        · rename_i reorder' released _
          have hf' : g.Fits { strm with reorder := some reorder', contOffset := rxOffset } := hf.congr rfl rfl rfl rfl rfl
          exact ((h.release released).setStrm hf').emitPendingStreamData hf' rxOffset

theorem takeInOrder_fits (hf : g.Fits strm) (fr : StreamFrame) (rxOffset : Nat) :
    g.Fits (Conn.takeInOrder strm fr rxOffset).1 := by
  unfold Conn.takeInOrder
  split
  · exact hf
  · simp only
    rw [updateRxOffset_eq]
    exact hf.congr rfl rfl rfl rfl rfl

theorem Honours.deliverInOrder (h : Honours g conn) (hf : g.Fits strm) (fr : StreamFrame) (rxOffset : Nat) :
    Ends Polite (Honours g) (conn.deliverInOrder strm fr rxOffset) := by
  unfold Conn.deliverInOrder
  have hf' := takeInOrder_fits hf fr rxOffset
  have hset := (h.release (Conn.takeInOrder strm fr rxOffset).2.1).setStrm hf'
  simp only
  split
  · exact hset.closeIf hf'
  · split
    · exact hset.callRecvStreamData _ _ _ _ _
    · exact polite_fault _

theorem connRecvReordering_fits (hf : g.Fits strm) (stats : BufStats) (data : List UInt8) (offset : Nat) (env : ReorderEnv) :
    g.Fits (connRecvReordering stats strm data offset env).strm := by
  obtain heq | ⟨-, -, buf, owned, -, heq⟩ := Release.connRecvReordering_strm stats strm data offset env
  · rw [heq]
    exact hf
  · rw [heq]
    exact hf.congr rfl rfl rfl rfl rfl

theorem push_rv (entries : Entries) (buf : Buf) (offset consumed : Nat) (owned mem : Bool) :
    (push entries buf offset consumed owned mem).rv = .ok ∨ (push entries buf offset consumed owned mem).rv = .nomem ∨
      (push entries buf offset consumed owned mem).rv = .frameEncoding := by
  unfold push
  simp only
  repeat' split
  all_goals simp

theorem acquire_polite {stats stats' : BufStats} {data : List UInt8} {source : Source} {rv : Rv}
    (h : acquire stats data source = (.error rv, stats')) (hs : Source.Polite source) : Polite (.error rv) := by
  have hrv : (source = .packet rv ∨ source = .other (.fails rv)) ∨ rv = .bufContract := by
    cases source with
    | packet rv' => cases rv' <;> simp_all [acquire]
    | other alloc =>
        cases alloc with
        | noAllocator | invalid | done => simp_all [acquire]
        | fails rv' => cases rv' <;> simp_all [acquire]
  obtain hrv | rfl := hrv
  · obtain ⟨hflow, hfinal⟩ := hs rv hrv
    simp [Polite, hflow, hfinal]
  · simp [Polite]

theorem recvReorderingBuf_rv (strm : Strm) (buf : Buf) (offset : Nat) (owned listMem entryMem : Bool) :
    Polite (.error (strm.recvReorderingBuf buf offset owned listMem entryMem).rv) := by
  unfold Strm.recvReorderingBuf
  split
  · simp [Polite]
  · simp only
    split
    · obtain hrv | hrv | hrv := push_rv strm.entries buf offset strm.contOffset owned entryMem
      · simp [Polite, hrv]
      · simp [Polite, hrv]
      · simp [Polite, hrv]
    · split
      · simp [Polite]
      · simp [Polite]

theorem connRecvReordering_polite (stats : BufStats) (strm : Strm) (data : List UInt8) (offset : Nat) {env : ReorderEnv}
    (henv : Source.Polite env.source) : Polite (.error (connRecvReordering stats strm data offset env).rv) := by
  unfold connRecvReordering
  split
  · rename_i hacq
    exact acquire_polite hacq henv
  · simp only
    split
    · exact recvReorderingBuf_rv _ _ _ _ _ _
    · split
      · simp [Polite]
      · simp [Polite]

theorem Honours.bufferStream (h : Honours g conn) (hf : g.Fits strm) (fr : StreamFrame) {env : RecvEnv}
    (henv : Source.Polite env.reorder.source) : Ends Polite (Honours g) (conn.bufferStream strm fr env) := by
  have hf' := connRecvReordering_fits hf conn.stats fr.data fr.offset env.reorder
  have hset : Honours g { conn.setStrm (connRecvReordering conn.stats strm fr.data fr.offset env.reorder).strm with
      stats := (connRecvReordering conn.stats strm fr.data fr.offset env.reorder).stats } :=
    (h.setStrm hf').of_eq rfl rfl rfl rfl rfl rfl h.ctl
  unfold Conn.bufferStream
  simp only
  split
  · exact connRecvReordering_polite _ _ _ _ henv
  · split
    · have hg := hset.glitch env.ts
      split
      · rename_i e he
        rw [he] at hg
        exact hg
      · rename_i conn₁ he
        rw [he] at hg
        exact Honours.closeIf hg hf'
    · exact hset.closeIf hf'

theorem Honours.deliverStream (h : Honours g conn) (hf : g.Fits strm) (fr : StreamFrame) (rxOffset : Nat) {env : RecvEnv}
    (henv : Source.Polite env.reorder.source) : Ends Polite (Honours g) (conn.deliverStream strm fr rxOffset env) := by
  unfold Conn.deliverStream
  split
  · exact h.deliverInOrder hf fr rxOffset
  · split
    · exact h.bufferStream hf fr henv
    · exact (h.setStrm hf).closeIf hf

/-- There is room in the connection for what was sent on the stream. -/
theorem Honours.room (h : Honours g conn) (hinv : Inv conn) (hg : g.Valid) (id : Nat) :
    conn.offset + (g.sent id - (conn.snap id).last) ≤ conn.maxOffset := by
  have hle : conn.offset + (g.sent id - (conn.snap id).last) ≤ ∑ x ∈ insert id conn.opened, g.sent x := by
    rw [hinv.total]
    by_cases hid : id ∈ conn.opened
    · rw [Finset.insert_eq_of_mem hid, ← Finset.sum_erase_add _ _ hid, ← Finset.sum_erase_add _ g.sent hid]
      have hrest : ∑ x ∈ conn.opened.erase id, (conn.snap x).last ≤ ∑ x ∈ conn.opened.erase id, g.sent x :=
        Finset.sum_le_sum fun x _ => h.last x
      have hlast := h.last id
      omega
    · rw [Finset.sum_insert hid]
      have hall : ∑ x ∈ conn.opened, (conn.snap x).last ≤ ∑ x ∈ conn.opened, g.sent x := Finset.sum_le_sum fun x _ => h.last x
      omega
  have htotal := hg.conn (insert id conn.opened)
  have hlimit := h.limit
  omega

theorem Honours.not_violated (h : Honours g conn) (hinv : Inv conn) (hg : g.Valid) {id n : Nat}
    (hn : (conn.snap id).last + n ≤ g.sent id) : conn.maxDataViolated n = false := by
  have hroom := h.room hinv hg id
  have hle := hinv.flow.offset_le
  have hmax := hinv.flow.max_le
  have hunsent := hinv.flow.unsent_le
  have hvarint := maxVarint_lt
  simp only [Conn.maxDataViolated, decide_eq_false_iff_not, Nat.not_lt]
  rw [sub64_of_le hle (by omega)]
  omega

theorem Honours.credit (h : Honours g conn) (id n : Nat) : Honours g (conn.credit id n) :=
  h.of_eq rfl rfl rfl rfl rfl rfl h.ctl

theorem Honours.account (h : Honours g conn) (strm : Strm) (endOffset : Nat) : Honours g (conn.account strm endOffset) := by
  unfold Conn.account
  split
  · simp only
    split
    · exact h.of_eq rfl rfl rfl rfl rfl rfl h.ctl
    · exact h.of_eq rfl rfl rfl rfl rfl rfl h.ctl
  · exact h

theorem snap_last {id : Nat} (hs : conn.strms id = some strm) : (conn.snap id).last = strm.lastOffset := by
  simp only [Snap.last, Conn.snap, hs, Option.some_or, Option.map_some, Option.getD_some]

/-- `conn_recv_stream` accepts a frame of a peer that keeps to what it was told. -/
theorem Honours.recvStreamOn (h : Honours g conn) (hinv : Inv conn) (hg : g.Valid) {fr : StreamFrame}
    (hs : conn.strms fr.streamId = some strm) (hfr : g.Stream fr) (isNew : Bool) {env : RecvEnv}
    (henv : Source.Polite env.reorder.source) : Ends Polite (Honours g) (conn.recvStreamOn strm fr isNew env) := by
  obtain ⟨hid, hf⟩ := h.fits _ strm hs
  obtain ⟨hend, hfin⟩ := hfr
  have hmax : fr.endOffset ≤ strm.maxOffset := Nat.le_trans hend (hf.max _ (hid ▸ hg.stream fr.streamId))
  have hlast := snap_last hs
  have hacc := h.account strm fr.endOffset
  unfold Conn.recvStreamOn
  rw [if_neg (Nat.not_lt.mpr hmax), if_neg]
  · simp only
    split
    · rename_i hfinal
      obtain ⟨hfinal, hsent⟩ := hfin hfinal
      split
      · rename_i hshut
        have hsame : strm.lastOffset = fr.endOffset := by
          rw [(hf.shut hshut).2, hid, hsent]
        rw [if_neg (not_not.mpr hsame)]
        split
        · exact hacc.glitch env.ts
        · split
          · exact hacc.glitchUnless isNew env.ts
          · exact hacc.deliverStream hf fr _ henv
      · rw [if_neg]
        · apply hacc.deliverStream _ fr _ henv
          refine ⟨?_, hf.max, fun _ => ?_, hf.unsent⟩
          · rw [hid]
            exact hend
          · rw [hid]
            exact ⟨hfinal, hsent⟩
        · have hle := hf.last
          rw [hid] at hle
          omega
    · have hmaxLe : max strm.lastOffset fr.endOffset ≤ g.sent strm.streamId := by
        rw [hid]
        exact Nat.max_le.mpr ⟨hid ▸ hf.last, hend⟩
      have hshutLast : strm.shutRd = true → fr.endOffset ≤ strm.lastOffset := by
        intro hshut
        rw [(hf.shut hshut).2, hid]
        exact hend
      rw [if_neg]
      · have hf' : g.Fits { strm with lastOffset := max strm.lastOffset fr.endOffset } := by
          refine ⟨hmaxLe, hf.max, fun hshut => ?_, hf.unsent⟩
          simp only [Nat.max_eq_left (hshutLast hshut)]
          exact hf.shut hshut
        split
        · exact (hacc.setStrm hf').glitchUnless isNew env.ts
        · split
          · exact (hacc.setStrm hf').glitch env.ts
          · exact hacc.deliverStream hf' fr _ henv
      · rintro ⟨hshut, hlt⟩
        have hle := hshutLast hshut
        omega
  · rintro ⟨hlt, hviol⟩
    have hnot : conn.maxDataViolated (fr.endOffset - strm.lastOffset) = false :=
      @Honours.not_violated g conn h hinv hg fr.streamId _ (by rw [hlast]; omega)
    rw [hnot] at hviol
    cases hviol

theorem Honours.recvResetStreamOn (h : Honours g conn) (hinv : Inv conn) (hg : g.Valid) {fr : ResetStream}
    (hs : conn.strms fr.streamId = some strm) (hfr : g.Reset fr) (env : RecvEnv) :
    Ends Polite (Honours g) (conn.recvResetStreamOn strm fr env) := by
  obtain ⟨hid, hf⟩ := h.fits _ strm hs
  have hsent := hfr.2
  have hle := hf.last
  rw [hid] at hle
  have hlast := snap_last hs
  unfold Conn.recvResetStreamOn
  rw [if_neg, if_neg]
  · split
    · exact h.glitch env.ts
    · rw [if_neg]
      · simp only
        rw [@Honours.not_violated g conn h hinv hg fr.streamId _ (by rw [hlast]; omega)]
        exact h.of_eq rfl rfl rfl rfl rfl rfl hfr
      · rw [hsent, Nat.not_lt]
        exact hf.max _ (hid ▸ hg.stream fr.streamId)
  · omega
  · rintro ⟨hshut, hne⟩
    exact hne (by rw [(hf.shut hshut).2, hid, hsent])

theorem Honours.returnStreamReset (h : Honours g conn) {fr : ResetStream} (hs : conn.strms fr.streamId = some strm)
    (hfr : g.Reset fr) (datalen : Nat) : Honours g (conn.returnStreamReset strm fr datalen) := by
  obtain ⟨hid, hf⟩ := h.fits _ strm hs
  obtain ⟨hfinal, hsent⟩ := hfr
  have hf' : g.Fits { strm with lastOffset := fr.finalSize, shutRd := true, resetStreamRecved := true } := by
    refine ⟨?_, hf.max, fun _ => ?_, hf.unsent⟩
    · rw [hsent, hid]
    · rw [hsent, hid]
      exact ⟨hfinal, rfl⟩
  unfold Conn.returnStreamReset
  simp only
  refine ((Honours.setStrm (Honours.credit ?_ _ _) hf').closeIf hf').idle
  split
  · exact h.of_eq rfl rfl rfl rfl rfl rfl h.ctl
  · have hcredit := h.credit strm.streamId (strm.lastOffset - strm.rxOffset)
    exact hcredit.of_eq rfl rfl rfl rfl rfl rfl h.ctl

theorem Honours.recvStreamDataBlockedOn (h : Honours g conn) (hinv : Inv conn) (hg : g.Valid) {fr : StreamDataBlocked}
    (hs : conn.strms fr.streamId = some strm) (hfr : fr.offset ≤ g.sent fr.streamId) :
    Ends Polite (Honours g) (conn.recvStreamDataBlockedOn strm fr) := by
  obtain ⟨hid, hf⟩ := h.fits _ strm hs
  have hlast := snap_last hs
  unfold Conn.recvStreamDataBlockedOn
  rw [if_neg]
  · split
    · exact h
    · rename_i hlt
      have hshut : strm.shutRd = false := by
        cases hshut : strm.shutRd with
        | false => rfl
        | true =>
            have hsent := (hf.shut hshut).2
            rw [hid] at hsent
            omega
      have hroom : conn.maxDataViolated (fr.offset - strm.lastOffset) = false :=
        @Honours.not_violated g conn h hinv hg fr.streamId _ (by rw [hlast]; omega)
      rw [if_neg (by simp [hshut]), if_neg (by simp [hroom])]
      apply (h.account strm fr.offset).setStrm
      refine ⟨?_, hf.max, fun hfalse => ?_, hf.unsent⟩
      · rw [hid]
        exact hfr
      · have hfalse : strm.shutRd = true := hfalse
        rw [hshut] at hfalse
        cases hfalse
  · rw [Nat.not_lt]
    exact Nat.le_trans hfr (hf.max _ (hid ▸ hg.stream fr.streamId))

theorem Honours.initStream (h : Honours g conn) {id : Nat} (hnew : id ∉ conn.opened)
    (hshut : (!bidiStream id && conn.localStream id) = false) : Honours g (conn.initStream id) := by
  have hf : g.Fits (conn.newStrm id) := by
    refine ⟨Nat.zero_le _, fun n hn => ?_, fun hs => ?_, Nat.le_refl _⟩
    · have hn := h.fresh id n hn hnew
      rw [← h.initial] at hn
      exact hn
    · rw [Conn.newStrm, hshut] at hs
      cases hs
  have hset := h.setStrm hf
  refine ⟨hset.last, hset.fits, fun x n hn hx => ?_, hset.initial, hset.own, hset.limit, hset.ctl⟩
  exact h.fresh x n hn fun hmem => hx (Finset.mem_insert_of_mem hmem)

theorem Honours.findOrOpen (h : Honours g conn) {id : Nat} {env : RecvEnv} {pending : Pending}
    {ignore : Conn → Except Stop Conn} {found : Strm → Except Stop Conn} (hignore : Ends Polite (Honours g) (ignore conn))
    (hfound : ∀ strm, conn.strms id = some strm → Ends Polite (Honours g) (found strm))
    (hpending : g.Pends (.streamOpen pending)) : Ends Polite (Honours g) (conn.findOrOpen id env pending ignore found) := by
  unfold Conn.findOrOpen
  split
  · rename_i strm hs
    exact hfound strm hs
  · split
    · exact hignore
    · rename_i hremote
      split
      · exact hignore
      · rename_i hnew
        split
        · simp [Ends, Polite]
        · have hinit := h.initStream hnew (by simp [hremote])
          exact hinit.of_eq rfl rfl rfl rfl rfl rfl hpending

theorem Honours.sent_le (h : Honours g conn) (hinv : Inv conn) (hg : g.Valid) (id : Nat) : g.sent id ≤ maxVarint := by
  have hone := hg.conn {id}
  rw [Finset.sum_singleton] at hone
  have hlimit := h.limit
  have hmax := hinv.flow.max_le
  have hunsent := hinv.flow.unsent_le
  omega

theorem checkStreamId_polite (conn : Conn) (id : Nat) {rv : Rv} (hrv : rv = .streamState ∨ rv = .proto) :
    Polite (.error (conn.checkStreamId id rv)) := by
  have hall : conn.checkStreamId id rv ≠ .flowControl ∧ conn.checkStreamId id rv ≠ .finalSize := by
    unfold Conn.checkStreamId
    obtain rfl | rfl := hrv
    · repeat' split
      all_goals simp
    · repeat' split
      all_goals simp
  exact ⟨fun heq => hall.1 (Stop.error.inj heq), fun heq => hall.2 (Stop.error.inj heq)⟩

theorem Honours.recvStream (h : Honours g conn) (hinv : Inv conn) (hg : g.Valid) {fr : StreamFrame} {env : RecvEnv}
    (hfr : g.Stream fr) (henv : Source.Polite env.reorder.source) : Ends Polite (Honours g) (conn.recvStream fr env) := by
  have hcheck := checkStreamId_polite conn fr.streamId (Or.inl rfl)
  have hle := h.sent_le hinv hg fr.streamId
  have hend := hfr.1
  unfold Conn.recvStream
  split
  · rw [if_neg]
    · refine h.findOrOpen (h.glitch env.ts) (fun strm hs => ?_) ⟨hfr, henv⟩
      exact h.recvStreamOn hinv hg hs hfr false henv
    · rw [StreamFrame.endOffset] at hend
      omega
  · exact hcheck

theorem Honours.recvResetStream (h : Honours g conn) (hinv : Inv conn) (hg : g.Valid) {fr : ResetStream} {env : RecvEnv}
    (hfr : g.Reset fr) : Ends Polite (Honours g) (conn.recvResetStream fr env) := by
  have hcheck := checkStreamId_polite conn fr.streamId (Or.inr rfl)
  have hle := h.sent_le hinv hg fr.streamId
  have hsent := hfr.2
  unfold Conn.recvResetStream
  split
  · rw [if_neg, if_neg]
    · refine h.findOrOpen (h.glitch env.ts) (fun strm hs => ?_) hfr
      exact h.recvResetStreamOn hinv hg hs hfr env
    · rintro ⟨hnone, -, hnew, hviol⟩
      obtain hviol | hviol := hviol
      · have hfresh := h.fresh fr.streamId _ (hg.stream fr.streamId) hnew
        rw [h.initial] at hviol
        omega
      · have hzero : (conn.snap fr.streamId).last = 0 := by
          simp only [Snap.last, Conn.snap, hnone, (hinv.fresh _ hnew).2, Option.none_or, Option.map_none, Option.getD_none]
        rw [@Honours.not_violated g conn h hinv hg fr.streamId _ (by omega)] at hviol
        cases hviol
    · omega
  · exact hcheck

theorem Honours.recvStreamDataBlocked (h : Honours g conn) (hinv : Inv conn) (hg : g.Valid) {fr : StreamDataBlocked}
    {env : RecvEnv} (hfr : fr.offset ≤ g.sent fr.streamId) : Ends Polite (Honours g) (conn.recvStreamDataBlocked fr env) := by
  have hcheck := checkStreamId_polite conn fr.streamId (Or.inl rfl)
  unfold Conn.recvStreamDataBlocked
  split
  · refine h.findOrOpen (show Ends Polite (Honours g) (.ok conn) from h) (fun strm hs => ?_) hfr
    exact h.recvStreamDataBlockedOn hinv hg hs hfr
  · exact hcheck

theorem Honours.shutdownStreamRead (h : Honours g conn) (id : Nat) : Honours g (conn.shutdownStreamRead id) := by
  unfold Conn.shutdownStreamRead
  split
  · exact h
  · split
    · exact h
    · rename_i strm hs
      split
      · obtain ⟨-, hf⟩ := h.fits id strm hs
        have hf' : g.Fits ({ strm with stopSending := true } : Strm).discardReorderedData.1 := by
          unfold Strm.discardReorderedData
          split
          · exact hf.congr rfl rfl rfl rfl rfl
          · exact hf.congr rfl rfl rfl rfl rfl
        have hcredit := h.credit strm.streamId (strm.lastOffset - strm.rxOffset)
        exact (hcredit.release _).setStrm hf'
      · exact h

theorem Honours.extendMaxStreamOffset (h : Honours g conn) (hinv : Inv conn) (id datalen : Nat) :
    Honours g (conn.extendMaxStreamOffset id datalen) := by
  unfold Conn.extendMaxStreamOffset
  split
  · exact h
  · split
    · exact h
    · rename_i strm hs
      obtain ⟨-, hf⟩ := h.fits id strm hs
      obtain ⟨-, -, hopen⟩ := hinv.open hs
      have hmax := hopen.bounded.max_le
      have hunsent := hf.unsent
      refine h.setStrm ⟨hf.last, hf.max, hf.shut, ?_⟩
      simp only
      split
      · exact hmax
      · omega

theorem Honours.sendMaxStreamData (h : Honours g conn) (hinv : Inv conn) (id delta : Nat) :
    Honours g (conn.sendMaxStreamData id delta) := by
  unfold Conn.sendMaxStreamData
  split
  · exact h
  · rename_i strm hs
    obtain ⟨-, hf⟩ := h.fits id strm hs
    obtain ⟨-, -, hopen⟩ := hinv.open hs
    have hmax := hopen.bounded.max_le
    have hunsent := hf.unsent
    refine h.setStrm ⟨hf.last, fun n hn => ?_, hf.shut, Nat.le_refl _⟩
    have hn := hf.max n hn
    simp only
    omega

theorem Honours.raise (h : Honours g conn) (hstrms : conn'.strms = conn.strms) (hclosed : conn'.closed = conn.closed)
    (hopened : conn'.opened = conn.opened) (hserver : conn'.server = conn.server) (hparams : conn'.params = conn.params)
    (hmax : conn.maxOffset ≤ conn'.maxOffset) (hctl : conn'.ctl = conn.ctl) : Honours g conn' := by
  have hsame : Honours g { conn' with maxOffset := conn.maxOffset } :=
    h.of_eq hstrms hclosed hopened hserver hparams rfl (by simp only [hctl]; exact h.ctl)
  exact ⟨hsame.last, hsame.fits, hsame.fresh, hsame.initial, hsame.own, Nat.le_trans hsame.limit hmax, hsame.ctl⟩

theorem Honours.sendMaxData (h : Honours g conn) (hinv : Inv conn) (ts smoothedRtt : Nat) :
    Honours g (conn.sendMaxData ts smoothedRtt) := by
  have hle := hinv.flow.max_le
  unfold Conn.sendMaxData
  split
  · simp only
    split
    · exact h.raise rfl rfl rfl rfl rfl (Nat.le_trans hle (Nat.le_add_right _ _)) rfl
    · exact h.raise rfl rfl rfl rfl rfl hle rfl
  · exact h

theorem Honours.openBidiStream (h : Honours g conn) (hinv : Inv conn) : Honours g conn.openBidiStream := by
  unfold Conn.openBidiStream
  split
  · exact h
  · have hnew : conn.localBidiNextStreamId ∉ conn.opened := by
      intro hmem
      exact Nat.lt_irrefl _ (hinv.next _ hmem hinv.next_local.1)
    have hinit := h.initStream hnew (by simp [hinv.next_local.2])
    exact hinit.of_eq rfl rfl rfl rfl rfl rfl h.ctl

theorem Honours.sendSide (h : Honours g conn) (id : Nat) (shutWr resetStream resetStreamAcked txDataFinAcked : Bool) :
    Honours g (conn.sendSide id shutWr resetStream resetStreamAcked txDataFinAcked) := by
  unfold Conn.sendSide
  split
  · exact h
  · rename_i strm hs
    obtain ⟨-, hf⟩ := h.fits id strm hs
    have hf' : g.Fits { strm with
        shutWr := shutWr
        resetStream := resetStream
        resetStreamAcked := resetStreamAcked
        txDataFinAcked := txDataFinAcked } := hf.congr rfl rfl rfl rfl rfl
    simp only
    split
    · exact (h.setStrm hf').closeIf hf'
    · exact h.setStrm hf'

/-- The return of a callback goes on with a frame that was sent. -/
theorem Honours.callbackReturns (h : Honours g conn) (hinv : Inv conn) (hg : g.Valid) :
    Ends Polite (Honours g) (callbackReturns conn) := by
  unfold Rx.callbackReturns
  split
  · exact polite_notEnabled
  · rename_i pending hctl
    have hpends := h.ctl
    rw [hctl] at hpends
    have hidle := hinv.idle (fun x => by rw [hctl]; rfl)
    simp only
    split
    · split
      · exact polite_notEnabled
      · rename_i fr env strm hs
        exact h.idle.recvStreamOn hidle hg hs hpends.1 true hpends.2
    · split
      · exact polite_notEnabled
      · rename_i strm hs
        exact h.idle.recvResetStreamOn hidle hg hs hpends _
    · split
      · exact polite_notEnabled
      · rename_i fr strm hs
        exact h.idle.recvStreamDataBlockedOn hidle hg hs hpends
  · split
    · exact polite_notEnabled
    · rename_i strm hs
      exact h.returnRecvStreamData (h.fits _ strm hs).2 _ _
  · rename_i fr datalen hctl
    have hpends := h.ctl
    rw [hctl] at hpends
    split
    · exact polite_notEnabled
    · rename_i strm hs
      exact h.returnStreamReset hs hpends datalen
  · exact h.idle

/-- The frames are those of the peer. -/
def Ledger.Admits (g : Ledger) : Input → Prop
  | .recvStream fr env => g.Stream fr ∧ Source.Polite env.reorder.source
  | .recvResetStream fr _ => g.Reset fr
  | .recvStreamDataBlocked fr _ => fr.offset ≤ g.sent fr.streamId
  | _ => True

theorem whenIdle_ends {P : Stop → Prop} {Q : Conn → Prop} {next : Except Stop Conn} (hstop : P .notEnabled)
    (h : Ends P Q next) : Ends P Q (whenIdle conn next) := by
  unfold whenIdle
  split
  · exact h
  · exact hstop

theorem Honours.step (h : Honours g conn) (hinv : Inv conn) (hg : g.Valid) {input : Input} (hi : g.Admits input) :
    Ends Polite (Honours g) (step conn input) := by
  cases input with
  | recvStream fr env => exact whenIdle_ends polite_notEnabled (h.recvStream hinv hg hi.1 hi.2)
  | recvResetStream fr env => exact whenIdle_ends polite_notEnabled (h.recvResetStream hinv hg hi)
  | recvStreamDataBlocked fr env => exact whenIdle_ends polite_notEnabled (h.recvStreamDataBlocked hinv hg hi)
  | callbackReturns => exact h.callbackReturns hinv hg
  | shutdownStreamRead id => exact h.shutdownStreamRead id
  | extendMaxOffset n => exact h.of_eq rfl rfl rfl rfl rfl rfl h.ctl
  | extendMaxStreamOffset id n => exact h.extendMaxStreamOffset hinv id n
  | openBidiStream => exact h.openBidiStream hinv
  | sendSide id shutWr resetStream resetStreamAcked txDataFinAcked =>
      exact h.sendSide id shutWr resetStream resetStreamAcked txDataFinAcked
  | sendMaxData ts rtt => exact whenIdle_ends polite_notEnabled (h.sendMaxData hinv ts rtt)
  | sendMaxStreamData id delta => exact whenIdle_ends polite_notEnabled (h.sendMaxStreamData hinv id delta)

/-- More was sent and promised, but nothing beyond a final size, and no promise beyond an earlier one. -/
structure Ledger.Grows (g g' : Ledger) : Prop where
  sent : ∀ id, g.sent id ≤ g'.sent id
  final : ∀ id, g.final id → g'.final id ∧ g'.sent id = g.sent id
  promised : ∀ id n, g'.promised id n → ∃ m, g.promised id m ∧ n ≤ m
  initial : g'.initial = g.initial
  own : g'.server = g.server ∧ g'.params = g.params

theorem Ledger.Grows.reset {g' : Ledger} (h : g.Grows g') {fr : ResetStream} (hr : g.Reset fr) : g'.Reset fr := by
  obtain ⟨hfinal, hsent⟩ := h.final _ hr.1
  exact ⟨hfinal, by rw [hsent]; exact hr.2⟩

theorem Ledger.Grows.pends {g' : Ledger} (h : g.Grows g') {ctl : Ctl} (hp : g.Pends ctl) : g'.Pends ctl := by
  cases ctl with
  | idle | recvStreamData _ _ _ | other => trivial
  | streamReset fr datalen => exact h.reset hp
  | streamOpen pending =>
      cases pending with
      | stream fr env =>
          obtain ⟨⟨hend, hfin⟩, henv⟩ := hp
          refine ⟨⟨Nat.le_trans hend (h.sent _), fun hf => ?_⟩, henv⟩
          obtain ⟨hfinal, heq⟩ := hfin hf
          obtain ⟨hfinal', hsent⟩ := h.final _ hfinal
          exact ⟨hfinal', heq.trans hsent.symm⟩
      | reset fr env => exact h.reset hp
      | blocked fr => exact Nat.le_trans hp (h.sent _)

theorem Honours.grow {g' : Ledger} (h : Honours g conn) (hg : g.Grows g') (hlimit : g'.limit ≤ conn.maxOffset) :
    Honours g' conn := by
  refine ⟨fun id => Nat.le_trans (h.last id) (hg.sent id), fun id strm hs => ?_, fun id n hn hid => ?_, ?_, ?_,
    hlimit, hg.pends h.ctl⟩
  · obtain ⟨hsid, hf⟩ := h.fits id strm hs
    refine ⟨hsid, Nat.le_trans hf.last (hg.sent _), fun n hn => ?_, fun hshut => ?_, hf.unsent⟩
    · obtain ⟨m, hm, hle⟩ := hg.promised _ n hn
      exact Nat.le_trans hle (hf.max m hm)
    · obtain ⟨hfinal, hlast⟩ := hf.shut hshut
      obtain ⟨hfinal', hsent⟩ := hg.final _ hfinal
      exact ⟨hfinal', hlast.trans hsent.symm⟩
  · obtain ⟨m, hm, hle⟩ := hg.promised id n hn
    rw [hg.initial]
    exact Nat.le_trans hle (h.fresh id m hm hid)
  · rw [hg.initial]
    exact h.initial
  · rw [hg.own.1, hg.own.2]
    exact h.own

/-- The limits of the open streams are promised. -/
theorem Honours.promise (h : Honours g conn) (hinv : Inv conn) :
    Honours { g with promised := fun id n => g.promised id n ∨ ∃ strm, conn.strms id = some strm ∧ n ≤ strm.maxOffset } conn := by
  refine ⟨h.last, fun id strm hs => ?_, fun id n hn hid => ?_, h.initial, h.own, h.limit, h.ctl⟩
  · obtain ⟨hsid, hf⟩ := h.fits id strm hs
    refine ⟨hsid, hf.last, fun n hn => ?_, hf.shut, hf.unsent⟩
    obtain hn | ⟨strm', hs', hle⟩ := hn
    · exact hf.max n hn
    · rw [hsid, hs] at hs'
      cases hs'
      exact hle
  · obtain hn | ⟨strm, hs, -⟩ := hn
    · exact h.fresh id n hn hid
    · exact absurd (hinv.opened hs) hid

def stopsAtGapBool (conn : Conn) (id : Nat) : Bool :=
  match conn.ctl with
  | .recvStreamData streamId rx _ =>
      streamId ≠ id || (conn.strms id).all fun strm => !Conn.stopsReading strm || strm.rxOffset = rx
  | _ => true

theorem stopsAtGapBool_iff (conn : Conn) (id : Nat) :
    stopsAtGapBool conn id = true ↔ StopsAtGap conn (.shutdownStreamRead id) := by
  unfold stopsAtGapBool StopsAtGap
  split
  · rename_i streamId rx popping hctl
    simp only [hctl, Ctl.recvStreamData.injEq, Option.all_eq_true, Bool.or_eq_true, decide_eq_true_eq, Bool.not_eq_true']
    constructor
    · rintro (hne | hall) strm rx' popping' hs hstops ⟨rfl, rfl, rfl⟩
      · exact absurd rfl hne
      · obtain hnot | heq := hall strm hs
        · rw [hnot] at hstops
          cases hstops
        · exact heq
    · intro h
      by_cases hid : streamId = id
      · subst hid
        refine Or.inr fun strm hs => ?_
        cases hstops : Conn.stopsReading strm with
        | false => exact Or.inl rfl
        | true => exact Or.inr (h strm rx popping hs hstops ⟨rfl, rfl, rfl⟩)
      · exact Or.inl hid
  · rename_i hne
    simp only [true_iff]
    intro strm rx popping _ _ hctl
    exact absurd hctl (hne id rx popping)

instance decidableStopsAtGap (conn : Conn) : (input : Input) → Decidable (StopsAtGap conn input)
  | .shutdownStreamRead id => decidable_of_iff _ (stopsAtGapBool_iff conn id)
  | .recvStream _ _ | .recvResetStream _ _ | .recvStreamDataBlocked _ _ | .callbackReturns | .extendMaxOffset _
  | .extendMaxStreamOffset _ _ | .openBidiStream | .sendSide _ _ _ _ _ | .sendMaxData _ _ | .sendMaxStreamData _ _ =>
      isTrue trivial

end Zngtcp2.Rx
