import Zngtcp2.Tx.StreamSteps

namespace Zngtcp2.StreamTx

open Strm TxStrm TxFrame Lib.Run

theorem Inv.writeQueued {pkt : Pkt} (h : Inv pkt.1 pkt.2) (sid left : Nat) :
    Ends Tolerated (fun pkt' => Inv pkt'.1 pkt'.2 ∧ pkt'.1.opened = pkt.1.opened) (StreamTx.writeQueued pkt sid left) := by
  rw [StreamTx.writeQueued]
  cases hs : pkt.1.strms sid with
  | none => exact ⟨h, rfl⟩
  | some strm =>
      have hok := h.streams sid strm hs
      simp only
      split
      · exact ⟨h, rfl⟩
      · obtain ⟨off, hoff, hnone⟩ := hok.unackedOffset
        rw [hoff]
        cases off with
        | none => exact ⟨h.setQueue hs (hnone rfl) (fun _ _ => rfl) h.ids, rfl⟩
        | some off =>
            obtain ⟨res, queue, hpop, hok'⟩ := hok.streamfrqPop left
            simp only [bind, Except.bind, hpop]
            refine ⟨h.setQueue hs (hok'.perm ?_) (fun j hj => ?_) (fun p hp => ?_), rfl⟩
            · rw [framesOf_append, framesOf_append, framesOf_append, framesOf_map_self, ← List.append_assoc]
              exact List.perm_append_comm.append_right _
            · rw [framesOf_append, framesOf_map_ne hj, List.append_nil]
            · rcases List.mem_append.mp hp with hp | hp
              · exact h.ids p hp
              · obtain ⟨f, _, rfl⟩ := List.mem_map.mp hp
                exact h.known sid strm hs

theorem Inv.writeRounds (rounds : List (Nat × Nat)) {pkt : Pkt} (h : Inv pkt.1 pkt.2) :
    Ends Tolerated (fun pkt' => Inv pkt'.1 pkt'.2) (StreamTx.writeRounds rounds pkt) := by
  induction rounds generalizing pkt with
  | nil => exact h
  | cons r rounds ih =>
      obtain ⟨sid, left⟩ := r
      exact (h.writeQueued sid left).bind (fun pkt' hpkt => ih hpkt.1)

theorem strmqEmpty_queue {s : State} (h : strmqEmpty s = true) {sid : Nat} {strm : TxStrm} (hopened : sid ∈ s.opened)
    (hs : s.strms sid = some strm) : strm.queue = [] := by
  have hall := List.all_eq_true.mp h sid hopened
  rw [hs, Option.all_some, decide_eq_true_eq] at hall
  exact hall

theorem Inv.accept {s : State} {extra : List (Nat × TxFrame)} (h : Inv s extra) {sid : Nat} {strm : TxStrm}
    (hs : s.strms sid = some strm) {data : List UInt8} {fin : Bool} (hopen : strm.shutWr = false)
    (hlen : strm.offset + data.length ≤ maxVarint) (hnew : data = [] → fin = false → strm.anySent = false)
    (hq : ∀ f ∈ strm.queue, empty f = false) :
    Inv (s.set sid (accept strm data.length fin)) ((sid, newFrame strm data fin) :: extra) := by
  have hmax : maxVarint < uint64Max := by
    have hlt := maxVarint_lt
    rw [uint64Max]
    omega
  have hok := h.streams sid strm hs
  refine h.set hs ?_ (fun j hj => framesOf_cons_ne hj _ _) (fun p hp => ?_) (fun f hf => hf.accept hopen _ _) (fun _ => ⟨rfl, ?_⟩)
  · rw [List.cons_append, framesOf_cons_self]
    exact hok.accept hopen (Nat.lt_of_le_of_lt hlen hmax) hnew hq
  · rcases List.mem_cons.mp hp with rfl | hp
    · exact h.known sid strm hs
    · exact h.ids p hp
  · intro _ hfin
    have hshut := hok.finShut hfin
    rw [hopen] at hshut
    cases hshut

theorem Inv.perm {s : State} {extra extra' : List (Nat × TxFrame)} (h : Inv s extra) (hp : extra'.Perm extra) :
    Inv s extra' :=
  ⟨fun sid strm hs => (h.streams sid strm hs).perm (framesOf_perm (hp.append_right _) sid), h.known,
    fun p hmem => h.ids p (hp.mem_iff.mp hmem), h.sent, h.early⟩

theorem Inv.writeNew {pkt : Pkt} (h : Inv pkt.1 pkt.2) (new : Option (Nat × List UInt8 × Bool)) :
    Inv (StreamTx.writeNew pkt new).1 (StreamTx.writeNew pkt new).2 := by
  cases new with
  | none => exact h
  | some new =>
      obtain ⟨sid, data, fin⟩ := new
      rw [StreamTx.writeNew]
      cases hs : pkt.1.strms sid with
      | none => exact h
      | some strm =>
          simp only
          split
          · rename_i hwrites
            rw [Bool.and_eq_true] at hwrites
            obtain ⟨hwrites, hempty⟩ := hwrites
            simp only [writes, Bool.and_eq_true, Bool.not_eq_true', Bool.or_eq_true, decide_eq_true_eq] at hwrites
            obtain ⟨⟨hopen, hsome⟩, hlen⟩ := hwrites
            have hq := strmqEmpty_queue hempty (h.known sid strm hs) hs
            refine (h.accept hs hopen hlen (fun hdata hfin => ?_) (by simp [hq])).perm List.perm_append_comm
            simpa [hdata, hfin] using hsome
          · exact h

theorem Inv.send {s : State} (h : Inv s []) (rounds : List (Nat × Nat)) (new : Option (Nat × List UInt8 × Bool)) :
    Ends Tolerated (fun s' => Inv s' []) (step s (.send rounds new)) := by
  refine (@Inv.writeRounds rounds (s, []) h).bind (fun pkt hpkt => ?_)
  have hnew := hpkt.writeNew new
  change Inv (finishPkt (StreamTx.writeNew pkt new)) []
  generalize StreamTx.writeNew pkt new = pkt' at hnew
  rw [finishPkt]
  split
  · rename_i hnil
    rw [hnil] at hnew
    exact hnew
  · have hlive : liveFrames (⟨pkt'.2, false, false⟩ :: pkt'.1.rtb) = pkt'.2 ++ liveFrames pkt'.1.rtb := liveFrames_cons _ _
    refine ⟨fun sid strm hs => ?_, hnew.known, by simp, ?_, ?_⟩
    · have hok := hnew.streams sid strm hs
      rw [← hlive] at hok
      exact hok
    · intro e he p hp
      rcases List.mem_cons.mp he with rfl | he
      · refine ⟨hnew.ids p hp, fun strm hs => ?_⟩
        refine (hnew.streams p.1 strm hs).tidy.frames p.2 (List.mem_append_right _ (mem_framesOf.mpr ?_))
        exact List.mem_append_left _ hp
      · exact hnew.sent e he p hp
    · intro hinit
      obtain ⟨hlost, hacked⟩ := hnew.early hinit
      exact ⟨List.forall_mem_cons.mpr ⟨rfl, hlost⟩, hacked⟩

/-- `ngtcp2_conn_submit_stream_buf` on a stream whose opening frame does not wait in the queue. -/
theorem Inv.submit {s : State} (h : Inv s []) {sid : Nat} {data : List UInt8} {fin : Bool}
    (hfree : ∀ strm ∈ s.strms sid, submits strm data fin = true → ∀ f ∈ strm.queue, empty f = true → f.offset ≠ strm.offset) :
    Ends Tolerated (fun s' => Inv s' []) (step s (.submit sid data fin)) := by
  rw [step]
  cases hs : s.strms sid with
  | none => exact h
  | some strm =>
      simp only
      split
      · rename_i hsub
        have hfree := hfree strm hs hsub
        simp only [submits, Bool.and_eq_true, Bool.not_eq_true', Bool.or_eq_true, decide_eq_true_eq] at hsub
        obtain ⟨⟨hopen, hsome⟩, hlen⟩ := hsub
        have hok := h.streams sid strm hs
        have hreset : strm.resetStream = false := by
          cases hr : strm.resetStream with
          | false => rfl
          | true =>
              rw [hok.reset hr] at hopen
              cases hopen
        have hq : ∀ f ∈ strm.queue, empty f = false := by
          intro f hf
          cases hempty : empty f with
          | false => rfl
          | true =>
              have hzero := hok.atZero f (List.mem_append_left _ hf) hempty
              have hoff := (hok.opening hreset f hf hempty).1
              exact absurd (hzero.trans hoff.symm) (hfree f hf hempty)
        have hnot : empty (newFrame strm data fin) = false := by
          rcases hsome with hdata | hfin
          · simp only [empty, datalen, newFrame_bytes, List.length_eq_zero_iff, Bool.and_eq_false_iff,
              decide_eq_false_iff_not]
            exact Or.inl hdata
          · simp [empty, newFrame, hfin]
        have hinv := @Inv.accept s [] h sid strm hs data fin hopen hlen
          (fun hdata hfin => by simp [hdata, hfin] at hsome) hq
        have hself : (s.set sid (StreamTx.accept strm data.length fin)).strms sid = some (StreamTx.accept strm data.length fin) :=
          Function.update_self _ _ _
        have hok' := hinv.streams sid _ hself
        rw [List.cons_append, framesOf_cons_self] at hok'
        rcases hok'.push (fun g hg _ => ⟨hq g hg, hnot⟩) (fun _ hempty => by rw [hnot] at hempty; cases hempty) with
          hfull | ⟨queue, hpush, hok''⟩
        · change streamfrqPush strm.queue _ = _ at hfull
          rw [hfull]
          rfl
        · change streamfrqPush strm.queue _ = _ at hpush
          rw [hpush]
          have hset := @Inv.setQueue _ _ [] hinv sid _ hself queue hok'' (fun j hj => (framesOf_cons_ne hj _ _).symm) (by simp)
          simp only [State.set, Function.update_idem] at hset
          exact hset
      · exact h

theorem Inv.acked {s : State} (h : Inv s []) (i : Nat) (rxDone : List Nat) :
    Ends Tolerated (fun s' => Inv s' []) (step s (.acked i rxDone)) := by
  rw [step]
  cases he : s.rtb[i]? with
  | none => exact h
  | some e =>
      obtain ⟨before, after, hrtb, _, herase⟩ := split_at he
      have hout := @Inv.takeOut s h before after [] e _ hrtb rfl (by simp) (show true = false → _ from fun hfalse => by cases hfalse) (by simp)
      rw [List.nil_append, ← herase] at hout
      have hfit : ∀ p ∈ e.frames, ∀ strm, s.strms p.1 = some strm → FrameOf strm p.2 :=
        fun p hp => (h.sent e (List.mem_of_getElem? he) p hp).2
      exact (hout.processAckedPkt hfit rfl).bind (fun strms hstrms => hstrms)

theorem Inv.lost {s : State} (h : Inv s []) (i : Nat) : Ends Tolerated (fun s' => Inv s' []) (step s (.lost i)) := by
  rw [step]
  cases he : s.rtb[i]? with
  | none => exact h
  | some e =>
      simp only
      split
      · exact h
      · rename_i hnot
        rw [Bool.not_eq_true] at hnot
        obtain ⟨before, after, hrtb, hset, _⟩ := split_at he
        have hdead : Entry.live { e with lostRetransmitted := true } = false := rfl
        have hout := @Inv.takeOut s h before after [{ e with lostRetransmitted := true }] e _ hrtb (by simp [liveFrames, hdead]) (by simp)
          (show true = false → _ from fun hfalse => by cases hfalse) (by simp)
        rw [List.singleton_append, ← hset] at hout
        cases hpto : e.ptoReclaimed with
        | true =>
            simp only [Entry.live, hpto, Bool.not_true, Bool.and_false, Bool.false_eq_true, if_false] at hout
            exact hout
        | false =>
            simp only [Entry.live, hpto, hnot, Bool.not_false, Bool.and_true, if_true] at hout
            exact hout.reclaimFrame.bind (fun strms hstrms => hstrms)

theorem Inv.pto {s : State} (h : Inv s []) (i : Nat) : Ends Tolerated (fun s' => Inv s' []) (step s (.pto i)) := by
  rw [step]
  cases he : s.rtb[i]? with
  | none => exact h
  | some e =>
      simp only
      split
      · rename_i hlive
        obtain ⟨before, after, hrtb, hset, _⟩ := split_at he
        have hdead : Entry.live { e with ptoReclaimed := true } = false := Bool.and_false _
        have hlost : e.lostRetransmitted = false := by
          rw [Entry.live, Bool.and_eq_true, Bool.not_eq_true'] at hlive
          exact hlive.1
        have hout := @Inv.takeOut s h before after [{ e with ptoReclaimed := true }] e _ hrtb (by simp [liveFrames, hdead]) (by simp)
          (fun hinit => hinit) (fun _ => by simp [hlost])
        rw [List.singleton_append, ← hset, if_pos hlive] at hout
        exact hout.reclaimFrame.bind (fun strms hstrms => hstrms)
      · exact h

theorem Inv.expired {s : State} (h : Inv s []) (i : Nat) : Ends Tolerated (fun s' => Inv s' []) (step s (.expired i)) := by
  rw [step]
  cases he : s.rtb[i]? with
  | none => exact h
  | some e =>
      change Inv (if e.lostRetransmitted then _ else _) []
      split
      · rename_i hlost
        obtain ⟨before, after, hrtb, _, herase⟩ := split_at he
        have hout := @Inv.takeOut s h before after [] e _ hrtb rfl (by simp) (fun hinit => hinit) (by simp)
        simp only [Entry.live, hlost, Bool.not_true, Bool.false_and, Bool.false_eq_true, if_false, List.nil_append, ← herase] at hout
        exact hout
      · exact h

theorem Inv.retry {s : State} (h : Inv s [])
    (hclash : s.initialPktProcessed = false → s.recvRetry = false → ∀ sid ∈ s.opened, ∀ strm ∈ s.strms sid,
      NoClash (strm.queue ++ framesOf sid (retryFrames s.rtb))) : Ends Tolerated (fun s' => Inv s' []) (step s .retry) := by
  rw [step]
  split
  · exact h
  · rename_i hnot
    rw [Bool.or_eq_true, not_or, Bool.not_eq_true, Bool.not_eq_true] at hnot
    obtain ⟨hinit, hretry⟩ := hnot
    have hlost := (h.early hinit).1
    have hlive : retryFrames s.rtb = liveFrames s.rtb := by
      rw [retryFrames, liveFrames]
      congr 1
      refine List.filter_congr (fun e he => ?_)
      rw [Entry.live, hlost e he, Bool.not_false, Bool.true_and]
    rw [if_neg]
    · have hmoved : Inv { s with rtb := [], recvRetry := true } (retryFrames s.rtb) := by
        refine ⟨fun sid strm hs => ?_, h.known, fun p hp => ?_, by simp, fun _ => ⟨by simp, (h.early hinit).2⟩⟩
        · have hok := h.streams sid strm hs
          rw [List.nil_append, ← hlive] at hok
          simpa [liveFrames] using hok
        · obtain ⟨e, he, hp⟩ := List.mem_flatMap.mp hp
          exact (h.sent e (List.mem_of_mem_filter he) p hp).1
      refine (hmoved.reclaimFrameOnRetry rfl hinit (fun sid strm hs => ?_)).bind (fun strms hstrms => hstrms)
      exact hclash hinit hretry sid (h.known sid strm hs) strm hs
    · simp only [List.any_eq_true, not_exists, not_and, Bool.not_eq_true]
      exact hlost

/-- Nothing is waited for on a stream that is reset, or of which everything is acknowledged. -/
theorem StreamOk.shut {strm : TxStrm} {held : List TxFrame} (h : StreamOk strm held) {reset : Bool}
    (hreset : reset = false → allTxDataFinAcked strm = true) :
    StreamOk { strm with shutWr := true, resetStream := reset, queue := [] } held := by
  have hsub : ([] ++ held).Sublist (strm.queue ++ held) := List.sublist_append_right _ _
  refine ⟨?_, ?_, by simp, Nat.le_trans hsub.countP_le h.once, fun f hf => h.atZero f (hsub.subset hf), ?_, fun _ => rfl,
    fun _ => rfl⟩
  · refine ⟨h.tidy.type, h.tidy.wf, fun f hf => ?_, h.tidy.apart.sublist hsub, List.Pairwise.nil⟩
    have hf' := h.tidy.frames f (hsub.subset hf)
    exact ⟨hf'.ok, hf'.data, hf'.le, fun hfin => ⟨(hf'.fin hfin).1, rfl⟩⟩
  · intro hnot
    have hall := hreset hnot
    rw [allTxDataFinAcked, Bool.and_eq_true, decide_eq_true_eq] at hall
    refine ⟨fun x hx hm => ?_, fun _ => Or.inl hall.1⟩
    have hle := h.tidy.wf.ackedOffset_le hm
    have hx : x < strm.offset := hx
    omega
  · intro hunsent
    obtain ⟨hnil, hzero⟩ := h.unsent hunsent
    exact ⟨List.sublist_nil.mp (hnil ▸ hsub), hzero⟩

theorem Inv.shut {s : State} (h : Inv s []) {sid : Nat} {strm : TxStrm} (hs : s.strms sid = some strm) {reset : Bool}
    (hreset : reset = false → allTxDataFinAcked strm = true) :
    Inv (s.set sid { strm with shutWr := true, resetStream := reset, queue := [] }) [] := by
  refine h.set hs ((h.streams sid strm hs).shut hreset) (fun _ _ => rfl) (by simp) ?_ (fun _ => ⟨rfl, fun hfin => hfin⟩)
  intro f hf
  exact ⟨hf.ok, hf.data, hf.le, fun hfin => ⟨(hf.fin hfin).1, rfl⟩⟩

theorem Inv.shutdownWrite {s : State} (h : Inv s []) (sid : Nat) :
    Ends Tolerated (fun s' => Inv s' []) (step s (.shutdownWrite sid)) := by
  rw [step]
  cases hs : s.strms sid with
  | none => exact h
  | some strm =>
      change Inv (s.set sid (shutdownStreamWrite strm)) []
      rw [shutdownStreamWrite]
      split
      · exact h.setQueue hs (h.streams sid strm hs) (fun _ _ => rfl) (by simp)
      · exact h.shut hs (fun hfalse => by cases hfalse)

theorem Inv.stopSending {s : State} (h : Inv s []) (sid : Nat) :
    Ends Tolerated (fun s' => Inv s' []) (step s (.stopSending sid)) := by
  rw [step]
  cases hs : s.strms sid with
  | none => exact h
  | some strm =>
      refine h.shut hs (fun hnot => ?_)
      rw [Bool.or_eq_false_iff, Bool.not_eq_false'] at hnot
      exact hnot.2

/-- No frame goes into a queue at the offset of the zero-length frame that opens the stream: not by a
submission while that frame waits in the queue, and not by a Retry packet that brings both back. -/
def OpensAlone (s : State) : Input → Prop
  | .submit sid data fin =>
      ∀ strm ∈ s.strms sid, submits strm data fin = true → ∀ f ∈ strm.queue, empty f = true → f.offset ≠ strm.offset
  | .retry =>
      s.initialPktProcessed = false → s.recvRetry = false → ∀ sid ∈ s.opened, ∀ strm ∈ s.strms sid,
        NoClash (strm.queue ++ framesOf sid (retryFrames s.rtb))
  | _ => True

instance (s : State) : (input : Input) → Decidable (OpensAlone s input)
  | .submit sid data fin => inferInstanceAs (Decidable (∀ strm ∈ s.strms sid, submits strm data fin = true →
      ∀ f ∈ strm.queue, empty f = true → f.offset ≠ strm.offset))
  | .retry => inferInstanceAs (Decidable (s.initialPktProcessed = false → s.recvRetry = false → ∀ sid ∈ s.opened,
      ∀ strm ∈ s.strms sid, NoClash (strm.queue ++ framesOf sid (retryFrames s.rtb))))
  | .openStream _ _ | .send _ _ | .acked _ _ | .lost _ | .pto _ | .expired _ | .shutdownWrite _ | .stopSending _
  | .close _ => .isTrue trivial

theorem step_inv (s : State) (input : Input) (h : Inv s []) (hguard : OpensAlone s input) :
    Ends Tolerated (fun s' => Inv s' []) (step s input) := by
  cases input with
  | openStream sid writable =>
      rw [step]
      split
      · exact h
      · rename_i hnew
        exact h.openStream hnew writable
  | send rounds new => exact h.send rounds new
  | submit sid data fin => exact h.submit hguard
  | acked i rxDone => exact h.acked i rxDone
  | lost i => exact h.lost i
  | pto i => exact h.pto i
  | expired i => exact h.expired i
  | retry => exact h.retry hguard
  | shutdownWrite sid => exact h.shutdownWrite sid
  | stopSending sid => exact h.stopSending sid
  | close sid => exact h.close sid

theorem new_inv : Inv State.new [] := by
  refine ⟨?_, ?_, by simp, by simp [State.new], fun _ => ⟨by simp [State.new], ?_⟩⟩
  · intro sid strm hs
    cases hs
  · intro sid strm hs
    cases hs
  · intro sid strm hs
    cases hs

/-- The frame has the offset `x`. -/
def holds (x : Nat) (f : TxFrame) : Bool :=
  decide (f.offset ≤ x ∧ x < f.endOff)

/-- Every accepted offset, and FIN, is acknowledged or in exactly one frame of the queue or of
`held`; no two frames of the queue have the same offset. -/
structure NotForgotten (strm : TxStrm) (held : List TxFrame) : Prop where
  bytes : ∀ x < strm.offset, strm.acked.Missing x → (strm.queue ++ held).countP (holds x) = 1
  once : ∀ x, (strm.queue ++ held).countP (holds x) ≤ 1
  fin : strm.shutWr = true → strm.finAcked = false → (strm.queue ++ held).countP TxFrame.fin = 1
  finOnce : (strm.queue ++ held).countP TxFrame.fin ≤ 1
  distinct : strm.queue.Pairwise (fun a b => a.offset ≠ b.offset)

theorem countP_le_one {α : Type} {R : α → α → Prop} {p : α → Bool} (hp : ∀ a b, R a b → p a = true → p b = false)
    {l : List α} (h : l.Pairwise R) : l.countP p ≤ 1 := by
  induction l with
  | nil => exact Nat.zero_le 1
  | cons a l ih =>
      obtain ⟨ha, hl⟩ := List.pairwise_cons.mp h
      cases hpa : p a with
      | false =>
          rw [List.countP_cons_of_neg (by simp [hpa])]
          exact ih hl
      | true =>
          have hzero : l.countP p = 0 := by
            rw [List.countP_eq_zero]
            intro b hb
            simp [hp a b (ha b hb) hpa]
          rw [List.countP_cons_of_pos hpa, hzero]

theorem StreamOk.notForgotten {strm : TxStrm} {held : List TxFrame} (h : StreamOk strm held)
    (hreset : strm.resetStream = false) : NotForgotten strm held := by
  have hcov := h.covered hreset
  have honce : ∀ x, (strm.queue ++ held).countP (holds x) ≤ 1 := by
    intro x
    refine countP_le_one (fun a b hab ha => ?_) h.tidy.apart
    simp only [holds, decide_eq_true_eq, decide_eq_false_iff_not] at ha ⊢
    rcases hab with ⟨hle, _⟩ | ⟨hle, _⟩
    · omega
    · omega
  have hfinOnce : (strm.queue ++ held).countP TxFrame.fin ≤ 1 := by
    -- the frame with FIN ends behind all others, so two of them are not apart
    have hnot : (strm.queue ++ held).Pairwise (fun a b => a.fin = true → b.fin = false) := by
      refine h.tidy.apart.imp_of_mem (fun {a b} ha hb hab haf => ?_)
      cases hbf : b.fin with
      | false => rfl
      | true =>
          rcases hab with ⟨_, hf⟩ | ⟨_, hf⟩
          · rw [haf] at hf
            cases hf
          · rw [hbf] at hf
            cases hf
    exact countP_le_one (fun a b hab ha => hab ha) hnot
  refine ⟨fun x hx hm => ?_, honce, fun hshut hfa => ?_, hfinOnce, h.tidy.sorted.imp (fun hab => Nat.ne_of_lt hab)⟩
  · obtain ⟨f, hf, hle, hlt⟩ := hcov.bytes x hx hm
    have hpos : 0 < (strm.queue ++ held).countP (holds x) :=
      List.countP_pos_iff.mpr ⟨f, hf, by simpa [holds] using ⟨hle, hlt⟩⟩
    have := honce x
    omega
  · rcases hcov.fin hshut with hacked | ⟨f, hf, hfin⟩
    · rw [hfa] at hacked
      cases hacked
    · have hpos : 0 < (strm.queue ++ held).countP TxFrame.fin := List.countP_pos_iff.mpr ⟨f, hf, hfin⟩
      omega

/-- In every run in which the opening frame is left alone nothing is forgotten, and no call fails
but for a full queue or tracker. -/
theorem run_notForgotten (inputs : List Input) (hguard : Guarded step OpensAlone State.new inputs) :
    Ends Tolerated (fun s => ∀ sid strm, s.strms sid = some strm → strm.resetStream = false →
      NotForgotten strm (framesOf sid (liveFrames s.rtb))) (run step State.new inputs) := by
  have hends := run_ends step_inv new_inv hguard
  cases hrun : run step State.new inputs with
  | error e =>
      rw [hrun] at hends
      exact hends
  | ok s =>
      rw [hrun] at hends
      intro sid strm hs hreset
      exact (hends.streams sid strm hs).notForgotten hreset

/-- A stream that is opened with a zero-length frame, then written, copied on PTO, lost and finished
by a submission. -/
theorem run_notForgotten_pto :
    Guarded step OpensAlone State.new [.openStream 0 true, .send [] (some (0, [], false)), .send [] (some (0, [1, 2, 3], false)),
        .pto 0, .send [(0, 2)] none, .lost 1, .submit 0 [4] true] ∧
      Ends Tolerated (fun s => ∀ sid strm, s.strms sid = some strm → strm.resetStream = false →
        NotForgotten strm (framesOf sid (liveFrames s.rtb))) (run step State.new [.openStream 0 true,
          .send [] (some (0, [], false)), .send [] (some (0, [1, 2, 3], false)), .pto 0, .send [(0, 2)] none, .lost 1,
          .submit 0 [4] true]) :=
  ⟨by decide +kernel, run_notForgotten _ (by decide +kernel)⟩

/-- The zero-length frame that opens the stream is lost and waits in the queue at offset 0, where
the submission wants to go; or a Retry packet brings it back together with the first data. -/
theorem opening_frame_clashes :
    run step State.new [.openStream 0 true, .send [] (some (0, [], false)), .lost 0, .submit 0 [1] false] =
        .error (.failed .invalidArgument) ∧
      run step State.new [.openStream 0 true, .send [] (some (0, [], false)), .send [] (some (0, [1], false)), .retry] =
        .error (.failed .invalidArgument) :=
  ⟨by with_unfolding_all rfl, by with_unfolding_all rfl⟩

end Zngtcp2.StreamTx
