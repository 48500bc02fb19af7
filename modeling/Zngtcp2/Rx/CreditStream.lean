import Zngtcp2.Rx.Credit

namespace Zngtcp2.Rx

open Reorder

theorem touch_ctl {conn : Conn} {id : Nat} {strm : Strm} (hs : conn.strms id = some strm) (log : List Delivery)
    (ctl : Ctl) :
    ({ conn with delivered := log, ctl := ctl } : Conn) =
      conn.touch id strm (conn.credited id) log ctl conn.offset conn.unsentMaxOffset conn.stats conn.glitchRlim := by
  simp only [Conn.touch, ← hs, Function.update_eq_self]

/-- The history of the calls plays no part. -/
theorem Inv.of_calls {conn : Conn} (calls : List Call) (h : Inv { conn with calls := calls }) : Inv conn :=
  ⟨h.streams, h.fresh, h.next_local, h.next, h.total, h.flow, h.reset, h.params⟩

theorem touch_strms (conn : Conn) (id : Nat) (strm : Strm) (credited : Nat) (log : List Delivery) (ctl : Ctl)
    (offset unsent : Nat) (stats : BufStats) (rlim : Ratelim) :
    (conn.touch id strm credited log ctl offset unsent stats rlim).strms id = some strm :=
  Function.update_self _ _ _

theorem Inv.glitch {conn conn' : Conn} (h : Inv conn) {ts : Nat} (hg : conn.glitch ts = .ok conn') : Inv conn' := by
  unfold Conn.glitch at hg
  split at hg
  · cases hg
  · cases hg
    exact ⟨h.streams, h.fresh, h.next_local, h.next, h.total, h.flow, h.reset, h.params⟩
  · cases hg

theorem callbackOf_of_ne {x id rx : Nat} {popping : Option (Nat × Nat)} (hx : x ≠ id) :
    callbackOf x (.recvStreamData id rx popping) = none := by
  rw [callbackOf, if_neg (Ne.symm hx)]

/-- Leaving the callback of a stream whose buffered data is used up. -/
theorem Inv.toIdle {conn : Conn} (h : Inv conn) {id rx : Nat} {popping : Option (Nat × Nat)} {strm : Strm}
    (hs : conn.strms id = some strm) (hctl : conn.ctl = .recvStreamData id rx popping)
    (hdone : ¬ Halted strm → strm.contOffset = rx ∧ strm.rxOffset = rx ∧ deliveredTo conn.delivered id = rx) :
    Inv { conn.closeStreamIfShutRdwr strm with ctl := .idle } := by
  obtain ⟨hsid, -, hopen⟩ := h.open hs
  have hidle : Inv { conn with ctl := .idle } := by
    have ht := touch_ctl hs conn.delivered .idle
    rw [show ({ conn with ctl := .idle } : Conn) = { conn with delivered := conn.delivered, ctl := .idle } from rfl, ht]
    refine h.touch hs _ _ hsid (fun _ _ => rfl) (fun x hx => ?_) ?_ rfl h.flow trivial
    · rw [hctl, callbackOf_of_ne hx]
      rfl
    · refine ⟨hopen.bounded, hopen.last_le, hopen.stopped, hopen.account, fun hn => ?_, fun hc => absurd rfl hc, hopen.shut⟩
      obtain ⟨h₁, h₂, h₃⟩ := hdone hn
      exact ⟨(hopen.untouched hn).1, by rw [h₃, h₁], by rw [h₂, h₁]⟩
  have hclose := hidle.closeIf hs rfl
  unfold Conn.closeStreamIfShutRdwr at hclose ⊢
  split
  · rename_i hc
    rw [if_pos hc] at hclose
    exact hclose
  · exact hidle

theorem emit_ctl (conn : Conn) (strm : Strm) (rx : Nat) (ctl : Ctl) :
    Conn.emitPendingStreamData { conn with ctl := ctl } strm rx = conn.emitPendingStreamData strm rx := by
  have hclose : ({ ({ conn with ctl := ctl } : Conn).closeStreamIfShutRdwr strm with ctl := .idle } : Conn) =
      { conn.closeStreamIfShutRdwr strm with ctl := .idle } := by
    unfold Conn.closeStreamIfShutRdwr
    split <;> rfl
  unfold Conn.emitPendingStreamData
  rw [hclose]
  rfl

theorem deliveredTo_other (log : List Delivery) {d : Delivery} {x : Nat} (hx : x ≠ d.streamId) :
    deliveredTo (log ++ [d]) x = deliveredTo log x := by
  rw [deliveredTo_append, if_neg (Ne.symm hx), Nat.add_zero]

theorem deliveredTo_self (log : List Delivery) (d : Delivery) :
    deliveredTo (log ++ [d]) d.streamId = deliveredTo log d.streamId + d.data.length := by
  rw [deliveredTo_append, if_pos rfl]

theorem Inv.emit {conn conn' : Conn} (h : Inv conn) {id rx : Nat} {strm : Strm} (hs : conn.strms id = some strm)
    (hctl : conn.ctl = .recvStreamData id rx none) (he : conn.emitPendingStreamData strm rx = .ok conn') :
    Inv conn' := by
  obtain ⟨rfl, -, hopen⟩ := h.open hs
  rw [hctl, callbackOf, if_pos rfl] at hopen
  have hlive : strm.resetStreamRecved = false := hopen.live (by simp)
  unfold Conn.emitPendingStreamData at he
  cases hr : strm.reorder with
  | none =>
      simp only [hr] at he
      cases he
      refine h.toIdle hs hctl (fun hn => ?_)
      obtain ⟨-, h₁, h₂⟩ := hopen.untouched hn
      exact ⟨h₂, by simpa [Strm.rxOffset, hr] using h₂, h₁⟩
  | some reorder =>
      simp only [hr] at he
      split at he
      · rename_i hstop
        cases he
        exact h.toIdle hs hctl (fun hn => absurd (Or.inl hstop) hn)
      · rename_i hstop
        have hn : ¬ Halted strm := by simp [Halted, hstop, hlive]
        obtain ⟨hzero, h₁, h₂⟩ := hopen.untouched hn
        have hent : strm.entries = reorder := by simp [Strm.entries, hr]
        have hw : WF rx reorder := by
          rw [← h₂, ← hent]
          exact hopen.bounded.wf
        split at he
        · cases he
        · split at he
          · rename_i hgap
            cases he
            exact h.toIdle hs hctl (fun _ => ⟨h₂, hgap.symm, h₁⟩)
          · cases he
        · rename_i buf datalen hdata
          cases he
          cases reorder with
          | nil => cases hdata
          | cons ent rest =>
              rw [dataAt_head hw] at hdata
              split at hdata
              · rename_i hb
                cases hdata
                have hlen := hw.2.1.2
                have hlt := hw.2.1.1
                apply Inv.of_calls conn.calls
                rw [Conn.callRecvStreamData, touch_ctl hs]
                refine h.touch hs _ _ rfl (fun x hx => deliveredTo_other _ hx) (fun x hx => ?_) ?_ rfl h.flow trivial
                · rw [hctl, callbackOf_of_ne hx, callbackOf_of_ne hx]
                · have hd := deliveredTo_self conn.delivered ⟨strm.streamId,
                    strm.shutRd && rx + (ent.range.endOff - rx) = strm.lastOffset, !conn.handshakeCompleted, rx,
                    ent.buf.bytes⟩
                  simp only at hd
                  refine ⟨hopen.bounded, hopen.last_le, hopen.stopped, fun hh => absurd hh hn, fun _ => ⟨hzero, ?_⟩,
                    fun _ => hlive, hopen.shut⟩
                  rw [callbackOf, if_pos rfl, hd]
                  refine ⟨?_, h₂, rfl, ent, rest, hr, ?_⟩
                  · simp only [Buf.len] at hlen
                    omega
                  · rw [← hb, Nat.add_sub_cancel' (by omega)]
              · cases hdata

theorem Inv.returnRecvStreamData {conn conn' : Conn} (h : Inv conn) {id rx : Nat} {popping : Option (Nat × Nat)}
    {strm : Strm} (hs : conn.strms id = some strm) (hctl : conn.ctl = .recvStreamData id rx popping)
    (hr : conn.returnRecvStreamData strm rx popping = .ok conn') : Inv conn' := by
  cases popping with
  | none => exact h.emit hs hctl hr
  | some p =>
      obtain ⟨offset, datalen⟩ := p
      obtain ⟨rfl, -, hopen⟩ := h.open hs
      rw [hctl, callbackOf, if_pos rfl] at hopen
      have hlive : strm.resetStreamRecved = false := hopen.live (by simp)
      unfold Conn.returnRecvStreamData at hr
      cases hre : strm.reorder with
      | none =>
          simp only [hre] at hr
          cases hr
          refine h.toIdle hs hctl (fun hn => ?_)
          obtain ⟨-, -, -, -, ent, rest, hre', -⟩ := hopen.untouched hn
          rw [hre] at hre'
          cases hre'
      | some reorder =>
          simp only [hre] at hr
          have hstop : ¬ strm.stopSending = true := fun hst => by
            rw [hopen.stopped hst] at hre
            cases hre
          have hn : ¬ Halted strm := by simp [Halted, hstop, hlive]
          obtain ⟨hzero, hn₁, hcont, hrx, ent, rest, hre', hrange⟩ := hopen.untouched hn
          rw [hre] at hre'
          cases hre'
          obtain ⟨hpop, hbounded⟩ := pop_delivered hopen.bounded hre hcont hrx hrange
          simp only [hpop] at hr
          rw [← emit_ctl _ _ _ (.recvStreamData strm.streamId rx none)] at hr
          have hpopped : Inv (conn.touch strm.streamId { strm with reorder := some rest, contOffset := rx }
              (conn.credited strm.streamId) conn.delivered (.recvStreamData strm.streamId rx none) conn.offset
              conn.unsentMaxOffset (connReorderReleaseAll conn.stats [ent.release]) conn.glitchRlim) := by
            refine h.touch hs _ _ rfl (fun _ _ => rfl) (fun x hx => ?_) ?_ rfl h.flow trivial
            · rw [hctl, callbackOf_of_ne hx, callbackOf_of_ne hx]
            · refine ⟨hbounded, hopen.last_le, fun hst => absurd hst hstop, fun hh => absurd hh hn,
                fun _ => ⟨hzero, ?_⟩, fun _ => hlive, hopen.shut⟩
              rw [callbackOf, if_pos rfl]
              exact ⟨hn₁, rfl⟩
          refine hpopped.emit (touch_strms conn strm.streamId _ _ _ _ _ _ _ _) rfl ?_
          rw [← hr]
          simp only [Conn.touch, Conn.setStrm, Conn.release, Function.update_eq_self]

theorem touch_setStrm (conn : Conn) (strm : Strm) (stats : BufStats) :
    ({ conn.setStrm strm with stats := stats } : Conn) =
      conn.touch strm.streamId strm (conn.credited strm.streamId) conn.delivered conn.ctl conn.offset
        conn.unsentMaxOffset stats conn.glitchRlim := by
  simp only [Conn.touch, Conn.setStrm, Function.update_eq_self]

theorem Inv.deliverInOrder {conn conn' : Conn} (h : Inv conn) {strm : Strm} {fr : StreamFrame}
    (hs : conn.strms strm.streamId = some strm) (hctl : conn.ctl = .idle)
    (hreset : strm.resetStreamRecved = false) (hend : fr.endOffset ≤ strm.lastOffset)
    (hoff : fr.offset ≤ strm.rxOffset) (hd : conn.deliverInOrder strm fr strm.rxOffset = .ok conn') : Inv conn' := by
  obtain ⟨-, -, hopen⟩ := h.open hs
  have hcb : ∀ x, callbackOf x conn.ctl = none := fun x => by rw [hctl]; rfl
  rw [hcb] at hopen
  obtain ⟨strm', rels, htake, hstrm', hbounded, hcont, hlist⟩ := takeInOrder_spec hopen.bounded hoff hend
  have hsid : strm'.streamId = strm.streamId := by rw [hstrm']
  have hlast : strm'.lastOffset = strm.lastOffset := by rw [hstrm']
  have hstop : strm'.stopSending = strm.stopSending := by rw [hstrm']
  have hlive : strm'.resetStreamRecved = false := by rw [hstrm']; exact hreset
  have hhalt : Halted strm' ↔ Halted strm := by simp [Halted, hstop, hlive, hreset]
  have hbase := hopen.last_le
  simp only [Conn.deliverInOrder, htake] at hd
  rw [show (conn.release rels).setStrm strm' =
    { conn.setStrm strm' with stats := connReorderReleaseAll conn.stats rels } from rfl, touch_setStrm, hsid] at hd
  split at hd
  · rename_i hst
    cases hd
    refine Inv.closeIf ?_ (touch_strms conn strm.streamId strm' _ _ _ _ _ _ _) hctl
    refine h.touch hs _ _ hsid (fun _ _ => rfl) (fun _ _ => rfl) ?_ (by rw [hlast]) h.flow (by rw [hctl]; trivial)
    rw [hcb]
    exact ⟨hbounded, by rw [hlast]; exact hbase, fun _ => hlist (hopen.stopped (by rw [← hstop]; exact hst)),
      fun hh => by rw [hlast]; exact hopen.account (hhalt.mp hh), fun hn => absurd (Or.inl hst) hn,
      fun hc => absurd rfl hc, fun hr => by simp [hlive] at hr⟩
  · rename_i hst
    have hn : ¬ Halted strm := by
      rw [← hhalt]
      simp [Halted, hst, hlive]
    obtain ⟨hzero, hn₁, hgap⟩ := hopen.untouched hn
    split at hd
    · cases hd
      have hd := deliveredTo_self conn.delivered ⟨strm.streamId,
        strm'.shutRd && strm.rxOffset + (fr.data.drop (strm.rxOffset - fr.offset)).length = strm'.lastOffset,
        !conn.handshakeCompleted, strm.rxOffset, fr.data.drop (strm.rxOffset - fr.offset)⟩
      simp only at hd
      apply Inv.of_calls conn.calls
      change Inv (conn.touch strm.streamId strm' (conn.credited strm.streamId) (conn.delivered ++ [⟨strm'.streamId,
        strm'.shutRd && _, !conn.handshakeCompleted, strm.rxOffset, fr.data.drop (strm.rxOffset - fr.offset)⟩])
        (.recvStreamData strm'.streamId _ none) conn.offset conn.unsentMaxOffset
        (connReorderReleaseAll conn.stats rels) conn.glitchRlim)
      rw [hsid]
      refine h.touch hs _ _ hsid (fun x hx => deliveredTo_other _ hx) (fun x hx => ?_) ?_ (by rw [hlast]) h.flow trivial
      · rw [hcb, callbackOf_of_ne hx]
      · refine ⟨hbounded, by rw [hlast]; exact hbase, fun hst' => absurd hst' hst,
          fun hh => absurd (hhalt.mp hh) hn, fun _ => ⟨hzero, ?_⟩, fun _ => hlive, fun hr => by simp [hlive] at hr⟩
        rw [callbackOf, if_pos rfl, hd, hn₁]
        exact ⟨by rw [hgap], hcont hgap⟩
    · cases hd

theorem Inv.bufferStream {conn conn' : Conn} (h : Inv conn) {strm : Strm} {fr : StreamFrame} {env : RecvEnv}
    (hs : conn.strms strm.streamId = some strm) (hctl : conn.ctl = .idle)
    (hreset : strm.resetStreamRecved = false) (hend : fr.endOffset ≤ strm.lastOffset)
    (hoff : strm.rxOffset < fr.offset) (hstop : strm.stopSending = false)
    (hd : conn.bufferStream strm fr env = .ok conn') : Inv conn' := by
  obtain ⟨-, -, hopen⟩ := h.open hs
  have hcb : ∀ x, callbackOf x conn.ctl = none := fun x => by rw [hctl]; rfl
  rw [hcb] at hopen
  have hn : ¬ Halted strm := by simp [Halted, hstop, hreset]
  obtain ⟨hzero, hn₁, hgap⟩ := hopen.untouched hn
  obtain ⟨hbounded, hfree⟩ := hopen.bounded.recvReordering conn.stats env.reorder hend hopen.last_le
  have hflags := Release.connRecvReordering_flags conn.stats strm fr.data fr.offset env.reorder
  simp only [Conn.bufferStream] at hd
  generalize connRecvReordering conn.stats strm fr.data fr.offset env.reorder = r at hd hbounded hfree hflags
  have hsid : r.strm.streamId = strm.streamId := by rw [hflags]
  have hlast : r.strm.lastOffset = strm.lastOffset := by rw [hflags]
  have hcont : r.strm.contOffset = strm.contOffset := by rw [hflags]
  have hhalt : ¬ Halted r.strm := by rw [hflags]; exact hn
  have hstored : Inv { conn.setStrm r.strm with stats := r.stats } := by
    rw [touch_setStrm, hsid]
    refine h.touch hs _ _ hsid (fun _ _ => rfl) (fun _ _ => rfl) ?_ (by rw [hlast]) h.flow (by rw [hctl]; trivial)
    rw [hcb]
    refine ⟨hbounded, by rw [hlast]; exact hopen.last_le, fun hst => absurd (Or.inl hst) hhalt,
      fun hh => absurd hh hhalt, fun _ => ⟨hzero, by rw [hcont]; exact hn₁, ?_⟩, fun hc => absurd rfl hc,
      fun hr => absurd (Or.inr hr) hhalt⟩
    rw [rxOffset_eq_cont_iff hbounded.wf, hcont]
    exact hfree (by omega) ((rxOffset_eq_cont_iff hopen.bounded.wf).mp hgap)
  have hin : ({ conn.setStrm r.strm with stats := r.stats } : Conn).strms r.strm.streamId = some r.strm :=
    Function.update_self _ _ _
  split at hd
  · cases hd
  · split at hd
    · split at hd
      · cases hd
      · rename_i c hg
        cases hd
        have hc := hstored.glitch hg
        have hsame : c.strms = ({ conn.setStrm r.strm with stats := r.stats } : Conn).strms ∧ c.ctl = conn.ctl := by
          unfold Conn.glitch at hg
          split at hg
          · cases hg
          · cases hg
            exact ⟨rfl, rfl⟩
          · cases hg
        exact hc.closeIf (by rw [hsame.1]; exact hin) (by rw [hsame.2]; exact hctl)
    · cases hd
      exact hstored.closeIf hin hctl

/-- The data of a frame is delivered, buffered or ignored, with its last offset accounted for. -/
theorem Inv.deliverStream {conn conn' : Conn} (h : Inv conn) {strm : Strm} {fr : StreamFrame} {env : RecvEnv}
    (hs : conn.strms strm.streamId = some strm) (hctl : conn.ctl = .idle)
    (hreset : strm.resetStreamRecved = false) (hend : fr.endOffset ≤ strm.lastOffset)
    (hd : conn.deliverStream strm fr strm.rxOffset env = .ok conn') : Inv conn' := by
  unfold Conn.deliverStream at hd
  split at hd
  · rename_i hoff
    exact h.deliverInOrder hs hctl hreset hend hoff hd
  · split at hd
    · rename_i hoff hbuf
      exact h.bufferStream hs hctl hreset hend (by omega) hbuf.2 hd
    · cases hd
      have hself : conn.setStrm strm = conn := by
        rw [Conn.setStrm, ← hs, Function.update_eq_self]
      rw [hself]
      exact h.closeIf hs hctl

end Zngtcp2.Rx
