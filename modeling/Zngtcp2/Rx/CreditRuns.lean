import Zngtcp2.Rx.CreditStream

namespace Zngtcp2.Rx

open Reorder Lib.Run

theorem takeInOrder_streamId (strm : Strm) (fr : StreamFrame) (rx : Nat) :
    (Conn.takeInOrder strm fr rx).1.streamId = strm.streamId := by
  rw [Conn.takeInOrder]
  split
  · rfl
  · simp only
    rw [updateRxOffset_eq]

theorem setStrm_setStrm (conn : Conn) {strm strm' : Strm} (h : strm'.streamId = strm.streamId) :
    (conn.setStrm strm).setStrm strm' = conn.setStrm strm' := by
  simp only [Conn.setStrm, h, Function.update_idem]

/-- The tail of `conn_recv_stream` stores the stream it is given, so storing it before changes nothing. -/
theorem deliverStream_setStrm (conn : Conn) (strm : Strm) (fr : StreamFrame) (rx : Nat) (env : RecvEnv) :
    (conn.setStrm strm).deliverStream strm fr rx env = conn.deliverStream strm fr rx env := by
  have hrel : ∀ rels strm', strm'.streamId = strm.streamId →
      ((conn.setStrm strm).release rels).setStrm strm' = (conn.release rels).setStrm strm' := by
    intro rels strm' h
    simp only [Conn.release, Conn.setStrm, h, Function.update_idem]
  have hbuf := Release.connRecvReordering_flags conn.stats strm fr.data fr.offset env.reorder
  have hid : (connRecvReordering conn.stats strm fr.data fr.offset env.reorder).strm.streamId = strm.streamId := by
    rw [hbuf]
  unfold Conn.deliverStream Conn.deliverInOrder Conn.bufferStream
  simp only [hrel _ _ (takeInOrder_streamId strm fr rx), setStrm_setStrm conn (rfl : strm.streamId = strm.streamId)]
  rw [show (conn.setStrm strm).stats = conn.stats from rfl, setStrm_setStrm conn hid]

theorem account_setStrm (conn : Conn) (strm : Strm) {endOffset : Nat} (hlt : strm.lastOffset < endOffset) (strm' : Strm)
    (hid : strm'.streamId = strm.streamId) :
    ∃ unsent, (conn.account strm endOffset).setStrm strm' = conn.touch strm.streamId strm'
        (conn.credited strm.streamId + if strm.stopSending then endOffset - strm.lastOffset else 0) conn.delivered conn.ctl
        (conn.offset + (endOffset - strm.lastOffset)) unsent conn.stats conn.glitchRlim ∧
      ∀ offset maxOffset window, Flow offset maxOffset conn.unsentMaxOffset window →
        Flow offset maxOffset unsent window := by
  rw [Conn.account, if_pos hlt]
  by_cases hst : strm.stopSending = true
  · refine ⟨_, ?_, fun _ _ _ hf => Flow.extend hf (endOffset - strm.lastOffset)⟩
    simp only [hst, if_true, Conn.credit, Conn.extendMaxOffset, Conn.setStrm, Conn.touch, hid]
  · refine ⟨conn.unsentMaxOffset, ?_, fun _ _ _ hf => hf⟩
    simp only [hst, if_false, Conn.setStrm, Conn.touch, hid, Nat.add_zero, Function.update_eq_self, Bool.false_eq_true]

/-- The accounting of new bytes, together with the stream's new last offset. -/
theorem Inv.account {conn : Conn} (h : Inv conn) {strm : Strm} {endOffset : Nat}
    (hs : conn.strms strm.streamId = some strm) (hctl : conn.ctl = .idle) (hmax : endOffset ≤ strm.maxOffset)
    (hviol : strm.lastOffset < endOffset → ¬ conn.maxDataViolated (endOffset - strm.lastOffset) = true)
    (hreset : strm.resetStreamRecved = true → endOffset ≤ strm.lastOffset) (shutRd : Bool)
    (hshut : strm.shutRd = true → shutRd = true) :
    Inv ((conn.account strm endOffset).setStrm
      { strm with lastOffset := max strm.lastOffset endOffset, shutRd := shutRd }) := by
  obtain ⟨-, -, hopen⟩ := h.open hs
  have hcb : ∀ x, callbackOf x conn.ctl = none := fun x => by rw [hctl]; rfl
  rw [hcb] at hopen
  have hle := hopen.last_le
  have hb := hopen.bounded
  have hm := hb.max_le
  have hbounded : Bounded { strm with lastOffset := max strm.lastOffset endOffset, shutRd := shutRd } :=
    ⟨hb.wf, le_trans hb.cont_le (le_max_left _ _), fun ent he => le_trans (hb.end_le ent he) (le_max_left _ _),
      hb.max_le, hb.unsent_le⟩
  have hplaced : ∀ n, Placed strm n none →
      Placed { strm with lastOffset := max strm.lastOffset endOffset, shutRd := shutRd } n none := fun _ hp => hp
  by_cases hlt : strm.lastOffset < endOffset
  · have hlive : strm.resetStreamRecved = false := by
      by_contra hc
      have := hreset (by simpa using hc)
      omega
    have hmaxeq : max strm.lastOffset endOffset = endOffset := by omega
    obtain ⟨unsent, heq, hflow⟩ := account_setStrm conn strm hlt
      { strm with lastOffset := max strm.lastOffset endOffset, shutRd := shutRd } rfl
    rw [heq]
    refine h.touch hs _ _ rfl (fun _ _ => rfl) (fun _ _ => rfl) ?_ ?_ (hflow _ _ _ ?_) (by rw [hctl]; trivial)
    · rw [hcb]
      refine ⟨hbounded, by simp only; omega, hopen.stopped, fun hh => ?_, fun hn => ?_, fun hc => absurd rfl hc,
        fun hr => hshut (hopen.shut hr)⟩
      · have hst : strm.stopSending = true := by simpa [Halted, hlive] using hh
        have hacc := hopen.account (Or.inl hst)
        simp only [hst, if_true]
        omega
      · have hst : ¬ strm.stopSending = true := fun hst => hn (Or.inl hst)
        obtain ⟨hz, hp⟩ := hopen.untouched (by simp [Halted, hst, hlive])
        exact ⟨by simp [hz, hst], hplaced _ hp⟩
    · simp only
      omega
    · exact Flow.grow h.flow (le_of_not_violated h.flow (hviol hlt))
  · have hmaxeq : max strm.lastOffset endOffset = strm.lastOffset := by omega
    rw [Conn.account, if_neg hlt]
    have heq := touch_setStrm conn { strm with lastOffset := max strm.lastOffset endOffset, shutRd := shutRd } conn.stats
    rw [show conn.setStrm { strm with lastOffset := max strm.lastOffset endOffset, shutRd := shutRd } =
      { conn.setStrm { strm with lastOffset := max strm.lastOffset endOffset, shutRd := shutRd } with
        stats := conn.stats } from rfl, heq]
    refine h.touch hs _ _ rfl (fun _ _ => rfl) (fun _ _ => rfl) ?_ (by simp only [hmaxeq]) h.flow (by rw [hctl]; trivial)
    rw [hcb]
    exact ⟨hbounded, by simp only [hmaxeq]; exact hle, hopen.stopped, fun hh => by simp only [hmaxeq]; exact hopen.account hh,
      fun hn => ⟨(hopen.untouched hn).1, hplaced _ (hopen.untouched hn).2⟩, fun hc => absurd rfl hc,
      fun hr => hshut (hopen.shut hr)⟩

theorem Inv.glitchUnless {conn conn' : Conn} (h : Inv conn) {isNew : Bool} {ts : Nat}
    (hg : conn.glitchUnless isNew ts = .ok conn') : Inv conn' := by
  unfold Conn.glitchUnless at hg
  split at hg
  · cases hg
    exact h
  · exact h.glitch hg

theorem Inv.recvStreamOn {conn conn' : Conn} (h : Inv conn) {strm : Strm} {fr : StreamFrame} {isNew : Bool}
    {env : RecvEnv} (hs : conn.strms strm.streamId = some strm) (hctl : conn.ctl = .idle)
    (hr : conn.recvStreamOn strm fr isNew env = .ok conn') : Inv conn' := by
  obtain ⟨-, -, hopen⟩ := h.open hs
  simp only [Conn.recvStreamOn] at hr
  split at hr
  · cases hr
  rename_i hmax
  split at hr
  · cases hr
  rename_i hviol
  have hviol' : strm.lastOffset < fr.endOffset → ¬ conn.maxDataViolated (fr.endOffset - strm.lastOffset) = true :=
    fun hlt hv => hviol ⟨hlt, hv⟩
  have hsame : strm.lastOffset = fr.endOffset → conn.account strm fr.endOffset = conn := fun heq => by
    rw [Conn.account, if_neg (by omega)]
  split at hr
  · split at hr
    · split at hr
      · cases hr
      rename_i hlast
      simp only [ne_eq, not_not] at hlast
      rw [hsame hlast] at hr
      split at hr
      · exact h.glitch hr
      rename_i hreset
      split at hr
      · exact h.glitchUnless hr
      · exact h.deliverStream hs hctl (by simpa using hreset) (by omega) hr
    · rename_i hshut
      split at hr
      · cases hr
      rename_i hle
      have hlive : ¬ strm.resetStreamRecved = true := fun hrs => hshut (hopen.shut hrs)
      have hacc := h.account hs hctl (by omega) hviol' (fun hrs => absurd hrs hlive) true (fun _ => rfl)
      rw [show max strm.lastOffset fr.endOffset = fr.endOffset by omega] at hacc
      rw [← deliverStream_setStrm] at hr
      refine hacc.deliverStream (Function.update_self _ _ _) ?_ (by simpa using hlive) (le_refl _) hr
      rw [← hctl, Conn.account]
      split_ifs <;> rfl
  · split at hr
    · cases hr
    rename_i hshut
    have hlive : strm.resetStreamRecved = true → fr.endOffset ≤ strm.lastOffset := by
      intro hrs
      by_contra hc
      exact hshut ⟨hopen.shut hrs, by omega⟩
    have hacc := h.account hs hctl (by omega) hviol' hlive strm.shutRd id
    split at hr
    · exact hacc.glitchUnless hr
    split at hr
    · exact hacc.glitch hr
    · rename_i hreset
      rw [← deliverStream_setStrm] at hr
      refine hacc.deliverStream (Function.update_self _ _ _) ?_ (by simpa using hreset) (le_max_right _ _) hr
      rw [← hctl, Conn.account]
      split_ifs <;> rfl

end Zngtcp2.Rx
