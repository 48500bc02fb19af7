import Zngtcp2.Early.Model

namespace Zngtcp2.EarlyData

open Lib.Run Strm StreamTx

/-- Only streams of the connection are in the queue. -/
def Conn.Queued (c : Conn) : Prop :=
  ∀ sid ∈ c.strmq, (c.strms sid).isSome

/-- What most of the code has in common: it leaves the tuning of the connection's window and the
retransmission buffer alone. -/
structure Quiet (c c' : Conn) : Prop where
  params : c'.params = c.params
  rxWindow : c'.rxWindow = c.rxWindow
  lastMaxDataTs : c'.lastMaxDataTs = c.lastMaxDataTs
  rtb : c'.rtb = c.rtb
  frames : c'.frames = c.frames
  queued : c.Queued → c'.Queued

namespace Quiet

theorem refl (c : Conn) : Quiet c c :=
  ⟨rfl, rfl, rfl, rfl, rfl, id⟩

theorem trans {c₁ c₂ c₃ : Conn} (h : Quiet c₁ c₂) (h' : Quiet c₂ c₃) : Quiet c₁ c₃ :=
  ⟨h'.params.trans h.params, h'.rxWindow.trans h.rxWindow, h'.lastMaxDataTs.trans h.lastMaxDataTs, h'.rtb.trans h.rtb,
    h'.frames.trans h.frames, h'.queued ∘ h.queued⟩

theorem set (c : Conn) (sid : Nat) (s : EarlyStrm) : Quiet c (c.set sid s) := by
  refine ⟨rfl, rfl, rfl, rfl, rfl, fun h sid' hmem => ?_⟩
  change (Function.update c.strms sid (some s) sid').isSome
  by_cases heq : sid' = sid
  · rw [heq, Function.update_self]
    rfl
  · rw [Function.update_of_ne heq]
    exact h sid' hmem

theorem enqueue {c : Conn} {sid : Nat} (h : (c.strms sid).isSome) : Quiet c (c.enqueue sid) := by
  refine ⟨rfl, rfl, rfl, rfl, rfl, fun hc sid' hmem => ?_⟩
  change sid' ∈ (if sid ∈ c.strmq then c.strmq else sid :: c.strmq) at hmem
  split at hmem
  · exact hc sid' hmem
  · rcases List.mem_cons.mp hmem with rfl | hmem
    · exact h
    · exact hc sid' hmem

theorem set_enqueue (c : Conn) (sid : Nat) (s : EarlyStrm) : Quiet c ((c.set sid s).enqueue sid) := by
  apply (set c sid s).trans
  apply enqueue
  change (Function.update c.strms sid (some s) sid).isSome
  rw [Function.update_self]
  rfl

theorem dequeue (c : Conn) (sid : Nat) : Quiet c (c.dequeue sid) :=
  ⟨rfl, rfl, rfl, rfl, rfl, fun h sid' hmem => h sid' (List.mem_filter.mp hmem).1⟩

end Quiet

namespace Conn

variable (c : Conn)

theorem openBidiStream_quiet : Quiet c c.openBidiStream := by
  rw [openBidiStream]
  split
  · exact .refl c
  · have h := Quiet.set c c.nextBidi
      (.init c.params.initialMaxStreamDataBidiLocal c.params.remoteMaxStreamDataBidiRemote false)
    exact ⟨rfl, rfl, rfl, rfl, rfl, h.queued⟩

theorem openUniStream_quiet : Quiet c c.openUniStream := by
  rw [openUniStream]
  split
  · exact .refl c
  · have h := Quiet.set c c.nextUni (.init 0 c.params.remoteMaxStreamDataUni true)
    exact ⟨rfl, rfl, rfl, rfl, rfl, h.queued⟩

theorem shutdownStreamWrite_quiet (sid : Nat) : Quiet c (c.shutdownStreamWrite sid) := by
  rw [shutdownStreamWrite]
  cases c.strms sid with
  | none => exact .refl c
  | some s =>
      simp only
      split
      · exact .refl c
      · exact .set_enqueue c sid _

theorem shutdownStreamRead_quiet (sid : Nat) : Quiet c (c.shutdownStreamRead sid) := by
  rw [shutdownStreamRead]
  cases c.strms sid with
  | none => exact .refl c
  | some s =>
      simp only
      split
      · exact .refl c
      · exact .set_enqueue c sid _

theorem extendMaxStreamOffset_quiet (sid datalen : Nat) : Quiet c (c.extendMaxStreamOffset sid datalen) := by
  rw [extendMaxStreamOffset]
  cases c.strms sid with
  | none => exact .refl c
  | some s =>
      simp only
      generalize (if maxVarint < datalen ∨ maxVarint - datalen < s.rxUnsentMaxOffset then maxVarint
        else s.rxUnsentMaxOffset + datalen) = unsent
      split
      · exact .set_enqueue c sid _
      · exact .set c sid _

theorem submitStreamBuf_quiet {c c' : Conn} {sid : Nat} {data : List UInt8} {fin : Bool}
    (h : c.submitStreamBuf sid data fin = .ok c') : Quiet c c' := by
  rw [submitStreamBuf] at h
  cases hs : c.strms sid with
  | none =>
      rw [hs] at h
      cases h
      exact .refl c
  | some s =>
      rw [hs] at h
      simp only at h
      split at h
      · cases h
        exact .refl c
      · obtain ⟨queue, -, h⟩ := bind_ok h
        cases h
        have hq := Quiet.set_enqueue c sid { s with tx := { accept s.tx (c.enforceFlowControl s data.length)
          (fin && decide (c.enforceFlowControl s data.length = data.length)) with queue := queue } }
        exact ⟨rfl, rfl, rfl, rfl, rfl, hq.queued⟩

theorem reclaimFrameOnRetry_quiet {c c' : Conn} {frs : List Frame} {ctl : List Control}
    (h : c.reclaimFrameOnRetry frs = .ok (c', ctl)) : Quiet c c' := by
  induction frs generalizing c ctl with
  | nil =>
      cases h
      exact .refl _
  | cons fr frs ih =>
      cases fr with
      | datagram => exact ih h
      | control fr =>
          obtain ⟨⟨c₁, ctl₁⟩, h₁, h⟩ := bind_ok h
          cases h
          exact ih h₁
      | stream sid fr =>
          rw [reclaimFrameOnRetry] at h
          cases hs : c.strms sid with
          | none =>
              rw [hs] at h
              exact ih h
          | some s =>
              rw [hs] at h
              obtain ⟨queue, -, h⟩ := bind_ok h
              exact (Quiet.set_enqueue c sid _).trans (ih h)

end Conn

namespace Pkt

variable (p : Pkt)

theorem append_quiet (fr : Control) : Quiet p.conn (p.append fr).conn := by
  rw [append]
  split
  · exact .refl _
  · exact ⟨rfl, rfl, rfl, rfl, rfl, id⟩

theorem writeFrq_quiet (p : Pkt) (frs : List Control) : Quiet p.conn (p.writeFrq frs).conn := by
  induction frs generalizing p with
  | nil => exact ⟨rfl, rfl, rfl, rfl, rfl, id⟩
  | cons fr frs ih =>
      rw [writeFrq]
      split
      · exact ih p
      · split
        · exact ih { p with written := p.written ++ [.control fr], room := p.room.tail }
        · exact ⟨rfl, rfl, rfl, rfl, rfl, id⟩

theorem sendDue_quiet (sid : Nat) (due : EarlyStrm → Bool) (mark : EarlyStrm → EarlyStrm) (fr : EarlyStrm → Control) :
    Quiet p.conn (p.sendDue sid due mark fr).conn := by
  rw [sendDue]
  cases p.conn.strms sid with
  | none => exact .refl _
  | some s =>
      simp only
      split
      · exact (Quiet.set p.conn sid (mark s)).trans
          (append_quiet { p with conn := p.conn.set sid (mark s) } (fr (mark s)))
      · exact .refl _

theorem sendStopSending_quiet (sid : Nat) : Quiet p.conn (p.sendStopSending sid).conn := by
  rw [sendStopSending]
  cases p.conn.strms sid with
  | none => exact .refl _
  | some s =>
      simp only
      split
      · exact .set p.conn sid _
      · exact p.sendDue_quiet sid _ _ _

theorem sendQueued_quiet {p p' : Pkt} {sid : Nat} {left : Option Nat} (h : p.sendQueued sid left = .ok p') :
    Quiet p.conn p'.conn := by
  rw [sendQueued] at h
  cases hs : p.conn.strms sid with
  | none =>
      rw [hs] at h
      cases h
      exact .refl _
  | some s =>
      rw [hs] at h
      simp only at h
      split at h
      · cases h
        exact .refl _
      · split at h
        · cases h
          exact .dequeue p.conn sid
        · obtain ⟨off, -, h⟩ := bind_ok h
          cases off with
          | none =>
              cases h
              exact (Quiet.set p.conn sid _).trans (.dequeue _ sid)
          | some off =>
              cases left with
              | none =>
                  cases h
                  exact .refl _
              | some left =>
                  obtain ⟨⟨res, queue⟩, -, h⟩ := bind_ok h
                  cases h
                  have hset := Quiet.set p.conn sid { s with tx := { s.tx with queue := queue } }
                  simp only
                  split
                  · exact hset.trans (.dequeue _ sid)
                  · exact hset

theorem sendStrm_quiet {p p' : Pkt} {ts smoothedRtt sid : Nat} {left : Option Nat}
    (h : p.sendStrm ts smoothedRtt sid left = .ok p') : Quiet p.conn p'.conn := by
  rw [sendStrm] at h
  split at h
  · have hreset : Quiet p.conn (p.sendResetStream sid).conn := p.sendDue_quiet sid _ _ _
    have hstop := hreset.trans ((p.sendResetStream sid).sendStopSending_quiet sid)
    generalize (p.sendResetStream sid).sendStopSending sid = p₁ at hstop h
    have hblocked : Quiet p₁.conn (p₁.sendStreamDataBlocked sid).conn := p₁.sendDue_quiet sid _ _ _
    generalize p₁.sendStreamDataBlocked sid = p₂ at hblocked h
    have hmax : Quiet p₂.conn (p₂.sendMaxStreamData sid ts smoothedRtt).conn := p₂.sendDue_quiet sid _ _ _
    exact hstop.trans (hblocked.trans (hmax.trans (sendQueued_quiet h)))
  · cases h
    exact .refl _

theorem sendStrms_quiet {p p' : Pkt} {ts smoothedRtt : Nat} {rounds : List (Nat × Option Nat)}
    (h : p.sendStrms ts smoothedRtt rounds = .ok p') : Quiet p.conn p'.conn := by
  induction rounds generalizing p with
  | nil =>
      cases h
      exact .refl _
  | cons round rounds ih =>
      obtain ⟨p₁, h₁, h⟩ := bind_ok h
      exact (sendStrm_quiet h₁).trans (ih h)

theorem sendMaxStreamsBidi_quiet : Quiet p.conn p.sendMaxStreamsBidi.conn := by
  rw [sendMaxStreamsBidi]
  simp only
  split
  · have h := append_quiet { p with conn := { p.conn with
      remoteBidi := ⟨p.conn.remoteBidi.unsentMaxStreams, p.conn.remoteBidi.unsentMaxStreams⟩ } }
      (.maxStreams true p.conn.remoteBidi.unsentMaxStreams)
    exact ⟨h.params, h.rxWindow, h.lastMaxDataTs, h.rtb, h.frames, h.queued⟩
  · exact .refl _

theorem sendMaxStreamsUni_quiet : Quiet p.conn p.sendMaxStreamsUni.conn := by
  rw [sendMaxStreamsUni]
  simp only
  split
  · have h := append_quiet { p with conn := { p.conn with
      remoteUni := ⟨p.conn.remoteUni.unsentMaxStreams, p.conn.remoteUni.unsentMaxStreams⟩ } }
      (.maxStreams false p.conn.remoteUni.unsentMaxStreams)
    exact ⟨h.params, h.rxWindow, h.lastMaxDataTs, h.rtb, h.frames, h.queued⟩
  · exact .refl _

theorem sendDataBlocked_quiet : Quiet p.conn p.sendDataBlocked.conn := by
  rw [sendDataBlocked]
  split
  · split
    · exact ⟨rfl, rfl, rfl, rfl, rfl, id⟩
    · exact .refl _
  · exact .refl _

theorem sendDataBlocked_strms : p.sendDataBlocked.conn.strms = p.conn.strms := by
  rw [sendDataBlocked]
  split
  · split <;> rfl
  · rfl

theorem sendBlocked_quiet {sid : Nat} (h : (p.conn.strms sid).isSome) (s : EarlyStrm) :
    Quiet p.conn (p.sendBlocked sid s).conn := by
  rw [sendBlocked]
  split
  · split
    · exact .set p.conn sid _
    · exact .enqueue h
  · exact .refl _

theorem blocked_quiet {sid : Nat} (h : (p.conn.strms sid).isSome) (s : EarlyStrm) :
    Quiet p.conn (p.sendDataBlocked.sendBlocked sid s).conn := by
  apply p.sendDataBlocked_quiet.trans
  apply sendBlocked_quiet
  rw [sendDataBlocked_strms]
  exact h

theorem acceptStream_quiet (sid : Nat) (s : EarlyStrm) (data : List UInt8) (fin : Bool) (w : Nat) :
    Quiet p.conn (p.acceptStream sid s data fin w).conn := by
  have hset := Quiet.set p.conn sid { s with tx := accept s.tx w fin }
  exact ⟨rfl, rfl, rfl, rfl, rfl, hset.queued⟩

theorem sendStream_quiet (sid : Nat) (data : List UInt8) (fin : Bool) (left : Option Nat) :
    Quiet p.conn (p.sendStream sid data fin left).conn := by
  rw [sendStream]
  cases hs : p.conn.strms sid with
  | none => exact .refl _
  | some s =>
      have hsome : (p.conn.strms sid).isSome := by
        rw [hs]
        rfl
      simp only
      generalize min (left.getD 0) (p.conn.enforceFlowControl s data.length) = w
      split
      · exact .refl _
      · split
        · exact p.blocked_quiet hsome s
        · split
          · generalize (fin && decide (w = data.length)) = fin'
            split
            · exact p.acceptStream_quiet sid s data fin' w
            · apply (p.acceptStream_quiet sid s data fin' w).trans
              apply blocked_quiet
              change (Function.update p.conn.strms sid _ sid).isSome
              rw [Function.update_self]
              rfl
          · exact .refl _

theorem sendMsg_quiet (m : Msg) : Quiet p.conn (p.sendMsg m).conn := by
  cases m with
  | stream sid data fin left => exact p.sendStream_quiet sid data fin left
  | datagram =>
      rw [sendMsg, sendDatagram]
      split <;> exact .refl _

theorem sendMsgs_quiet (p : Pkt) (msgs : List Msg) : Quiet p.conn (msgs.foldl sendMsg p).conn := by
  induction msgs generalizing p with
  | nil => exact .refl _
  | cons m msgs ih => exact (p.sendMsg_quiet m).trans (ih (p.sendMsg m))

/-- Everything from the frames in the queue to the messages. -/
theorem build_quiet {p p' : Pkt} {ts smoothedRtt : Nat} {frs : List Control} {rounds : List (Nat × Option Nat)}
    (h : (p.writeFrq frs).sendStrms ts smoothedRtt rounds = .ok p') (msgs : List Msg) :
    Quiet p.conn (msgs.foldl sendMsg p'.sendMaxStreamsBidi.sendMaxStreamsUni).conn := by
  have hstrms := (p.writeFrq_quiet frs).trans (sendStrms_quiet h)
  have hbidi := hstrms.trans p'.sendMaxStreamsBidi_quiet
  have huni := hbidi.trans p'.sendMaxStreamsBidi.sendMaxStreamsUni_quiet
  exact huni.trans (sendMsgs_quiet _ msgs)

end Pkt

end Zngtcp2.EarlyData
