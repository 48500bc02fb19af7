import Zngtcp2.Tx.HeldPop

namespace Zngtcp2.StreamTx

open Strm TxStrm TxFrame Lib.Run

def framesOf (sid : Nat) (frs : List (Nat × TxFrame)) : List TxFrame :=
  frs.filterMap (fun p => if p.1 = sid then some p.2 else none)

theorem framesOf_append (sid : Nat) (frs frs' : List (Nat × TxFrame)) :
    framesOf sid (frs ++ frs') = framesOf sid frs ++ framesOf sid frs' :=
  List.filterMap_append

theorem framesOf_cons_self (sid : Nat) (f : TxFrame) (frs : List (Nat × TxFrame)) :
    framesOf sid ((sid, f) :: frs) = f :: framesOf sid frs := by
  simp [framesOf]

theorem framesOf_cons_ne {sid j : Nat} (h : j ≠ sid) (f : TxFrame) (frs : List (Nat × TxFrame)) :
    framesOf j ((sid, f) :: frs) = framesOf j frs := by
  simp [framesOf, h.symm]

theorem framesOf_map_self (sid : Nat) (fs : List TxFrame) : framesOf sid (fs.map (sid, ·)) = fs := by
  induction fs with
  | nil => rfl
  | cons f fs ih => rw [List.map_cons, framesOf_cons_self, ih]

theorem framesOf_map_ne {sid j : Nat} (h : j ≠ sid) (fs : List TxFrame) : framesOf j (fs.map (sid, ·)) = [] := by
  induction fs with
  | nil => rfl
  | cons f fs ih => rw [List.map_cons, framesOf_cons_ne h, ih]

theorem mem_framesOf {sid : Nat} {f : TxFrame} {frs : List (Nat × TxFrame)} :
    f ∈ framesOf sid frs ↔ (sid, f) ∈ frs := by
  simp only [framesOf, List.mem_filterMap, Option.ite_none_right_eq_some, Option.some.injEq, Prod.exists]
  constructor
  · rintro ⟨a, b, hmem, rfl, rfl⟩
    exact hmem
  · intro hmem
    exact ⟨sid, f, hmem, rfl, rfl⟩

theorem framesOf_perm {frs frs' : List (Nat × TxFrame)} (h : frs.Perm frs') (sid : Nat) :
    (framesOf sid frs).Perm (framesOf sid frs') :=
  h.filterMap _

/-- The frames that the entries still stand for. -/
def liveFrames (rtb : List Entry) : List (Nat × TxFrame) :=
  (rtb.filter Entry.live).flatMap Entry.frames

/-- The invariant of the sending side, with the frames `extra` taken out of the packets. -/
structure Inv (s : State) (extra : List (Nat × TxFrame)) : Prop where
  streams : ∀ sid strm, s.strms sid = some strm → StreamOk strm (framesOf sid (extra ++ liveFrames s.rtb))
  known : ∀ sid strm, s.strms sid = some strm → sid ∈ s.opened
  ids : ∀ p ∈ extra, p.1 ∈ s.opened
  sent : ∀ e ∈ s.rtb, ∀ p ∈ e.frames, p.1 ∈ s.opened ∧ ∀ strm, s.strms p.1 = some strm → FrameOf strm p.2
  early : s.initialPktProcessed = false → (∀ e ∈ s.rtb, e.lostRetransmitted = false) ∧
    ∀ sid strm, s.strms sid = some strm → strm.acked = .new ∧ (strm.finAcked = true → strm.anySent = false)

theorem Inv.set {s : State} {extra extra' : List (Nat × TxFrame)} (h : Inv s extra) {sid : Nat} {strm strm' : TxStrm}
    (hs : s.strms sid = some strm) (hok : StreamOk strm' (framesOf sid (extra' ++ liveFrames s.rtb)))
    (hothers : ∀ j, j ≠ sid → framesOf j extra' = framesOf j extra) (hids : ∀ p ∈ extra', p.1 ∈ s.opened)
    (hframes : ∀ f, FrameOf strm f → FrameOf strm' f)
    (hearly : s.initialPktProcessed = false → strm'.acked = strm.acked ∧
      ((strm.finAcked = true → strm.anySent = false) → strm'.finAcked = true → strm'.anySent = false)) :
    Inv (s.set sid strm') extra' := by
  have hcase : ∀ j strm₁, (s.set sid strm').strms j = some strm₁ → (j = sid ∧ strm₁ = strm') ∨ (j ≠ sid ∧ s.strms j = some strm₁) := by
    intro j strm₁ hj
    by_cases hjs : j = sid
    · subst hjs
      simp only [State.set, Function.update_self, Option.some.injEq] at hj
      exact Or.inl ⟨rfl, hj.symm⟩
    · simp only [State.set, Function.update_of_ne hjs] at hj
      exact Or.inr ⟨hjs, hj⟩
  refine ⟨?_, ?_, hids, ?_, ?_⟩
  · intro j strm₁ hj
    rcases hcase j strm₁ hj with ⟨rfl, rfl⟩ | ⟨hne, hj⟩
    · exact hok
    · have hold := h.streams j strm₁ hj
      rw [framesOf_append, ← hothers j hne, ← framesOf_append] at hold
      exact hold
  · intro j strm₁ hj
    rcases hcase j strm₁ hj with ⟨rfl, _⟩ | ⟨_, hj⟩
    · exact h.known j strm hs
    · exact h.known j strm₁ hj
  · intro e he p hp
    obtain ⟨hopened, hof⟩ := h.sent e he p hp
    refine ⟨hopened, fun strm₁ hj => ?_⟩
    rcases hcase p.1 strm₁ hj with ⟨heq, rfl⟩ | ⟨_, hj⟩
    · exact hframes p.2 (hof strm (heq ▸ hs))
    · exact hof strm₁ hj
  · intro hinit
    obtain ⟨hlost, hnew⟩ := h.early hinit
    refine ⟨hlost, fun j strm₁ hj => ?_⟩
    rcases hcase j strm₁ hj with ⟨_, rfl⟩ | ⟨_, hj⟩
    · obtain ⟨hacked, hfin⟩ := hearly hinit
      obtain ⟨hn, hf⟩ := hnew sid strm hs
      exact ⟨hacked.trans hn, hfin hf⟩
    · exact hnew j strm₁ hj

/-- Only the queue of a stream changes. -/
theorem Inv.setQueue {s : State} {extra extra' : List (Nat × TxFrame)} (h : Inv s extra) {sid : Nat} {strm : TxStrm}
    (hs : s.strms sid = some strm) {queue : List TxFrame}
    (hok : StreamOk { strm with queue := queue } (framesOf sid (extra' ++ liveFrames s.rtb)))
    (hothers : ∀ j, j ≠ sid → framesOf j extra' = framesOf j extra) (hids : ∀ p ∈ extra', p.1 ∈ s.opened) :
    Inv (s.set sid { strm with queue := queue }) extra' :=
  h.set hs hok hothers hids (fun _ hf => ⟨hf.ok, hf.data, hf.le, hf.fin⟩) (fun _ => ⟨rfl, fun hfin => hfin⟩)

/-- A frame is dropped that its stream does not need, or that has no stream. -/
theorem Inv.drop {s : State} {extra : List (Nat × TxFrame)} {sid : Nat} {f : TxFrame} (h : Inv s ((sid, f) :: extra))
    (hf : ∀ strm, s.strms sid = some strm → strm.resetStream = false →
      f.AllAcked strm.acked.Missing ∧ (f.fin = true → strm.finAcked = true)) : Inv s extra := by
  refine ⟨?_, h.known, fun p hp => h.ids p (List.mem_cons_of_mem _ hp), h.sent, h.early⟩
  intro j strm hj
  have hold := h.streams j strm hj
  by_cases hjs : j = sid
  · subst hjs
    rw [List.cons_append, framesOf_cons_self] at hold
    refine hold.forget (List.Sublist.refl _) (List.sublist_cons_self f _) (fun hreset g hg => ?_)
    rcases List.mem_cons.mp (List.perm_middle.mem_iff.mp hg) with rfl | hg
    · exact Or.inr (hf strm hj hreset)
    · exact Or.inl hg
  · rwa [List.cons_append, framesOf_cons_ne hjs] at hold

/-- Only `NGTCP2_ERR_INTERNAL`, of a full queue or tracker, stops a step. -/
def Tolerated (stop : Stop) : Prop :=
  stop = .failed .internal

/-- A frame goes into the queue of its stream. -/
theorem Inv.pushFrame {s : State} {extra : List (Nat × TxFrame)} {sid : Nat} {f : TxFrame} {strm : TxStrm}
    (h : Inv s ((sid, f) :: extra)) (hs : s.strms sid = some strm)
    (hne : ∀ g ∈ strm.queue, g.offset = f.offset → empty g = false ∧ empty f = false)
    (hopen : strm.resetStream = false → empty f = true → strm.offset = 0 ∧ strm.shutWr = false) :
    Ends Tolerated (fun strms => ∃ queue, strms = (s.set sid { strm with queue := queue }).strms ∧
      queue.Perm (f :: strm.queue) ∧ Inv (s.set sid { strm with queue := queue }) extra)
      (StreamTx.pushFrame s.strms sid strm f) := by
  have hok := h.streams sid strm hs
  rw [List.cons_append, framesOf_cons_self] at hok
  rcases hok.push hne hopen with hfull | ⟨queue, hpush, hok'⟩
  · rw [StreamTx.pushFrame, hfull]
    rfl
  · rw [StreamTx.pushFrame, hpush]
    refine ⟨queue, rfl, kslInsert_perm (streamfrqPush_ok hpush).2, h.setQueue hs hok' (fun j hj => ?_) (fun p hp => ?_)⟩
    · rw [framesOf_cons_ne hj]
    · exact h.ids p (List.mem_cons_of_mem _ hp)

theorem not_wanted_of_empty {acked : Acked} {f : TxFrame} (h : f.datalen = 0) : wanted acked f = false := by
  rw [wanted]
  cases acked.unackedRangeAfter f.offset with
  | none => rfl
  | some gap =>
      simp only [meetsGap, TxFrame.endOff, h, decide_eq_false_iff_not]
      omega

/-- A frame that is queued again does not meet the frame that opens the stream, nor is it queued
already if it is that frame. -/
theorem StreamOk.reclaims_apart {strm : TxStrm} {held : List TxFrame} {f : TxFrame} (h : StreamOk strm (f :: held))
    (hreset : strm.resetStream = false) (hrec : reclaims strm f = true) :
    (∀ g ∈ strm.queue, g.offset = f.offset → empty g = false ∧ empty f = false) ∧
      (empty f = true → strm.offset = 0 ∧ strm.shutWr = false) := by
  have hfr := h.tidy.frames f (List.mem_append_right _ List.mem_cons_self)
  -- on a stream with nothing accepted every frame is the one that opens it
  have hall : ∀ g ∈ strm.queue ++ f :: held, strm.offset = 0 → strm.shutWr = false → empty g = true := by
    intro g hg hoff hshut
    have hg' := h.tidy.frames g hg
    have hle := hg'.le
    rw [hoff, TxFrame.endOff] at hle
    have hfin : g.fin = false := by
      cases hgf : g.fin with
      | false => rfl
      | true =>
          rw [(hg'.fin hgf).2] at hshut
          cases hshut
    simp only [empty, hfin, Bool.not_false, Bool.and_true, decide_eq_true_eq]
    omega
  have hopen : empty f = true → strm.offset = 0 ∧ strm.shutWr = false := by
    intro hempty
    simp only [empty, Bool.and_eq_true, decide_eq_true_eq, Bool.not_eq_true'] at hempty
    simp only [reclaims, not_wanted_of_empty hempty.1, hempty.2, Bool.or_false, Bool.false_or, Bool.and_eq_true,
      decide_eq_true_eq, Bool.not_eq_true'] at hrec
    exact ⟨hrec.1.1.2, hrec.1.2⟩
  refine ⟨fun g hg _ => ?_, hopen⟩
  have hnot : ¬(strm.offset = 0 ∧ strm.shutWr = false) := by
    rintro ⟨hoff, hshut⟩
    have hge := hall g (List.mem_append_left _ hg) hoff hshut
    have hfe := hall f (List.mem_append_right _ List.mem_cons_self) hoff hshut
    have honce := h.once
    rw [List.countP_append, List.countP_cons_of_pos hfe] at honce
    have hpos : 0 < strm.queue.countP empty := List.countP_pos_iff.mpr ⟨g, hg, hge⟩
    omega
  constructor
  · cases hge : empty g with
    | false => rfl
    | true => exact absurd (h.opening hreset g hg hge) hnot
  · cases hfe : empty f with
    | false => rfl
    | true => exact absurd (hopen hfe) hnot

theorem StreamOk.not_reclaims {strm : TxStrm} {held : List TxFrame} {f : TxFrame} (h : StreamOk strm (f :: held))
    (hrec : reclaims strm f = false) : f.AllAcked strm.acked.Missing ∧ f.fin = false := by
  have hfr := h.tidy.frames f (List.mem_append_right _ List.mem_cons_self)
  simp only [reclaims, Bool.or_eq_false_iff] at hrec
  refine ⟨?_, hrec.1.2⟩
  by_contra hnot
  have := (wanted_iff h.tidy.wf hfr.le).mpr hnot
  rw [hrec.1.1] at this
  cases this

theorem Inv.reclaimFrame {frs extra : List (Nat × TxFrame)} {s : State} (h : Inv s (frs ++ extra)) :
    Ends Tolerated (fun strms => Inv { s with strms := strms } extra) (StreamTx.reclaimFrame frs s.strms) := by
  induction frs generalizing s with
  | nil => exact h
  | cons p frs ih =>
      obtain ⟨sid, f⟩ := p
      rw [StreamTx.reclaimFrame]
      cases hs : s.strms sid with
      | none => exact ih (h.drop (fun strm hstrm => by rw [hs] at hstrm; cases hstrm))
      | some strm =>
          have hok := h.streams sid strm hs
          rw [List.cons_append, List.cons_append, framesOf_cons_self] at hok
          simp only
          split
          · rename_i hskip
            refine ih (h.drop (fun strm₁ hstrm hreset => ?_))
            rw [hs] at hstrm
            cases hstrm
            rw [hreset, Bool.false_or, Bool.not_eq_true'] at hskip
            obtain ⟨hall, hfin⟩ := hok.not_reclaims hskip
            exact ⟨hall, fun hf => by rw [hfin] at hf; cases hf⟩
          · rename_i hpush
            rw [Bool.or_eq_true, not_or, Bool.not_eq_true, Bool.not_eq_true', Bool.not_eq_false] at hpush
            obtain ⟨hreset, hrec⟩ := hpush
            obtain ⟨hne, hopen⟩ := hok.reclaims_apart hreset hrec
            refine (h.pushFrame hs hne (fun _ => hopen)).bind (fun strms hstrms => ?_)
            obtain ⟨queue, rfl, _, hinv⟩ := hstrms
            exact ih hinv

/-- No two of the frames have the same offset where one of them is empty. -/
def NoClash (frs : List TxFrame) : Prop :=
  frs.Pairwise (fun a b => a.offset = b.offset → empty a = false ∧ empty b = false)

instance (frs : List TxFrame) : Decidable (NoClash frs) :=
  inferInstanceAs (Decidable (List.Pairwise _ frs))

theorem noClash_perm {frs frs' : List TxFrame} (h : frs.Perm frs') : NoClash frs ↔ NoClash frs' := by
  refine h.pairwise_iff ?_
  intro a b hab heq
  exact (hab heq.symm).symm

/-- Before the first acknowledgement the frame that opens the stream is alone at its offset only
if nothing was accepted. -/
theorem StreamOk.opens_alone {strm : TxStrm} {f : TxFrame} {held : List TxFrame} (h : StreamOk strm (f :: held))
    (hreset : strm.resetStream = false) (hacked : strm.acked = .new)
    (hfin : strm.finAcked = true → strm.anySent = false) (hclash : NoClash (strm.queue ++ f :: held))
    (hempty : empty f = true) : strm.offset = 0 ∧ strm.shutWr = false := by
  have hf := h.atZero f (List.mem_append_right _ List.mem_cons_self) hempty
  have hcov := h.covered hreset
  -- no frame but `f` starts at 0
  have halone : ∀ g ∈ strm.queue ++ f :: held, g.offset = 0 → empty g = true := by
    intro g hg hg0
    have hclash' := (noClash_perm List.perm_middle).mp hclash
    rcases List.mem_cons.mp (List.perm_middle.mem_iff.mp hg) with rfl | hg
    · exact hempty
    · have := ((List.pairwise_cons.mp hclash').1 g hg (by rw [hf, hg0])).1
      rw [hempty] at this
      cases this
  have hoff : strm.offset = 0 := by
    by_contra hne
    have hmiss : strm.acked.Missing 0 := by
      rw [hacked]
      exact ⟨Nat.le_refl 0, by decide⟩
    obtain ⟨g, hg, hle, hlt⟩ := hcov.bytes 0 (Nat.pos_of_ne_zero hne) hmiss
    have hge := halone g hg (Nat.le_zero.mp hle)
    simp only [empty, Bool.and_eq_true, decide_eq_true_eq] at hge
    rw [TxFrame.endOff] at hlt
    omega
  refine ⟨hoff, ?_⟩
  cases hshut : strm.shutWr with
  | false => rfl
  | true =>
      rcases hcov.fin hshut with hfa | ⟨g, hg, hgf⟩
      · have hnil := (h.unsent (hfin hfa)).1
        simp at hnil
      · have hend := ((h.tidy.frames g hg).fin hgf).1
        rw [hoff, TxFrame.endOff] at hend
        have hge := halone g hg (by omega)
        simp [empty, hgf] at hge

theorem Inv.reclaimFrameOnRetry {frs : List (Nat × TxFrame)} {s : State} (h : Inv s frs) (hrtb : s.rtb = [])
    (hinit : s.initialPktProcessed = false)
    (hclash : ∀ sid strm, s.strms sid = some strm → NoClash (strm.queue ++ framesOf sid frs)) :
    Ends Tolerated (fun strms => Inv { s with strms := strms } []) (StreamTx.reclaimFrameOnRetry frs s.strms) := by
  induction frs generalizing s with
  | nil => exact h
  | cons p frs ih =>
      obtain ⟨sid, f⟩ := p
      rw [StreamTx.reclaimFrameOnRetry]
      cases hs : s.strms sid with
      | none =>
          refine ih (h.drop (fun strm hstrm => by rw [hs] at hstrm; cases hstrm)) hrtb hinit (fun j strm hj => ?_)
          have hjs : j ≠ sid := by
            rintro rfl
            rw [hs] at hj
            cases hj
          have := hclash j strm hj
          rwa [framesOf_cons_ne hjs] at this
      | some strm =>
          have hok := h.streams sid strm hs
          have hno := hclash sid strm hs
          rw [hrtb, liveFrames, List.filter_nil, List.flatMap_nil, List.append_nil, framesOf_cons_self] at hok
          rw [framesOf_cons_self] at hno
          obtain ⟨hacked, hfa⟩ := (h.early hinit).2 sid strm hs
          have hne : ∀ g ∈ strm.queue, g.offset = f.offset → empty g = false ∧ empty f = false :=
            fun g hg => (List.pairwise_append.mp hno).2.2 g hg f List.mem_cons_self
          refine (h.pushFrame hs hne (fun hreset => hok.opens_alone hreset hacked hfa hno)).bind (fun strms hstrms => ?_)
          obtain ⟨queue, rfl, hperm, hinv⟩ := hstrms
          refine ih hinv hrtb hinit (fun j strm₁ hj => ?_)
          by_cases hjs : j = sid
          · subst hjs
            simp only [State.set, Function.update_self, Option.some.injEq] at hj
            subst hj
            have hmid : (queue ++ framesOf j frs).Perm (strm.queue ++ f :: framesOf j frs) :=
              (hperm.append_right _).trans List.perm_middle.symm
            exact (noClash_perm hmid).mpr hno
          · simp only [State.set, Function.update_of_ne hjs] at hj
            have := hclash j strm₁ hj
            rwa [framesOf_cons_ne hjs] at this

/-- The acknowledgement of a frame, held by the packet or not any more. -/
theorem Inv.ackFrame {s : State} {extra : List (Nat × TxFrame)} {sid : Nat} {f : TxFrame} {strm : TxStrm} {held : Bool}
    (h : Inv s ((if held then [(sid, f)] else []) ++ extra)) (hs : s.strms sid = some strm) (hf : FrameOf strm f)
    (hinit : s.initialPktProcessed = true) : Inv (s.set sid (StreamTx.ackFrame strm f)) extra := by
  have hok := h.streams sid strm hs
  have hearly : s.initialPktProcessed = false → (StreamTx.ackFrame strm f).acked = strm.acked ∧
      ((strm.finAcked = true → strm.anySent = false) →
        (StreamTx.ackFrame strm f).finAcked = true → (StreamTx.ackFrame strm f).anySent = false) := by
    intro hnot
    rw [hinit] at hnot
    cases hnot
  cases held with
  | true =>
      simp only [if_true, List.cons_append, List.nil_append, framesOf_cons_self] at hok
      refine h.set hs hok.ack_held (fun j hj => ?_) (fun p hp => h.ids p (List.mem_append_right _ hp))
        (fun _ hg => ⟨hg.ok, hg.data, hg.le, hg.fin⟩) hearly
      simp only [if_true, List.cons_append, List.nil_append, framesOf_cons_ne hj]
  | false =>
      exact h.set hs (hok.ack hf) (fun j _ => rfl) (fun p hp => h.ids p hp)
        (fun _ hg => ⟨hg.ok, hg.data, hg.le, hg.fin⟩) hearly

theorem Inv.close {s : State} {extra : List (Nat × TxFrame)} (h : Inv s extra) (sid : Nat) :
    Inv { s with strms := Function.update s.strms sid none } extra := by
  have hold : ∀ j strm, Function.update s.strms sid none j = some strm → s.strms j = some strm := by
    intro j strm hj
    by_cases hjs : j = sid
    · subst hjs
      rw [Function.update_self] at hj
      cases hj
    · rwa [Function.update_of_ne hjs] at hj
  refine ⟨fun j strm hj => h.streams j strm (hold j strm hj), fun j strm hj => h.known j strm (hold j strm hj), h.ids, ?_, ?_⟩
  · intro e he p hp
    obtain ⟨hopened, hof⟩ := h.sent e he p hp
    exact ⟨hopened, fun strm hj => hof strm (hold p.1 strm hj)⟩
  · intro hinit
    obtain ⟨hlost, hnew⟩ := h.early hinit
    exact ⟨hlost, fun j strm hj => hnew j strm (hold j strm hj)⟩

theorem ackData_rv (a : Acked) (offset len : Nat) : (a.ackData offset len).1 = .ok ∨ (a.ackData offset len).1 = .internal := by
  rw [Acked.ackData]
  split
  · exact Or.inl rfl
  · simp only
    split
    · exact Or.inr rfl
    · exact Or.inl rfl

theorem Inv.processAckedPkt {held : Bool} {rxDone : List Nat} {frs extra : List (Nat × TxFrame)} {s : State}
    (h : Inv s ((if held then frs else []) ++ extra))
    (hfit : ∀ p ∈ frs, ∀ strm, s.strms p.1 = some strm → FrameOf strm p.2) (hinit : s.initialPktProcessed = true) :
    Ends Tolerated (fun strms => Inv { s with strms := strms } extra) (StreamTx.processAckedPkt rxDone frs s.strms) := by
  induction frs generalizing s with
  | nil =>
      rw [ite_self] at h
      exact h
  | cons p frs ih =>
      obtain ⟨sid, f⟩ := p
      have hfit' : ∀ p ∈ frs, ∀ strm, s.strms p.1 = some strm → FrameOf strm p.2 :=
        fun p hp => hfit p (List.mem_cons_of_mem _ hp)
      have hsplit : (if held then (sid, f) :: frs else []) ++ extra =
          (if held then [(sid, f)] else []) ++ ((if held then frs else []) ++ extra) := by
        cases held with
        | true => rfl
        | false => rfl
      rw [hsplit] at h
      rw [StreamTx.processAckedPkt]
      cases hs : s.strms sid with
      | none =>
          refine ih ?_ hfit' hinit
          cases held with
          | true => exact h.drop (fun strm hstrm => by rw [hs] at hstrm; cases hstrm)
          | false => exact h
      | some strm =>
          have hacked := h.ackFrame hs (hfit (sid, f) List.mem_cons_self strm hs) hinit
          have hkeep : ∀ p ∈ frs, ∀ strm₁, (s.set sid (StreamTx.ackFrame strm f)).strms p.1 = some strm₁ →
              FrameOf strm₁ p.2 := by
            intro p hp strm₁ hj
            by_cases hps : p.1 = sid
            · simp only [State.set, hps, Function.update_self, Option.some.injEq] at hj
              subst hj
              have hg := hfit' p hp strm (hps ▸ hs)
              exact ⟨hg.ok, hg.data, hg.le, hg.fin⟩
            · simp only [State.set, Function.update_of_ne hps] at hj
              exact hfit' p hp strm₁ hj
          simp only
          split
          · rename_i hrv
            rcases ackData_rv strm.acked f.offset f.datalen with hok | hinternal
            · exact absurd hok hrv
            · rw [hinternal]
              rfl
          · split
            · have hclosed := hacked.close sid
              have heq : Function.update (s.set sid (StreamTx.ackFrame strm f)).strms sid none =
                  Function.update s.strms sid none := Function.update_idem _ _ _
              rw [heq] at hclosed
              refine ih hclosed (fun p hp strm₁ hj => ?_) hinit
              refine hkeep p hp strm₁ ?_
              by_cases hps : p.1 = sid
              · simp only [hps, Function.update_self] at hj
                cases hj
              · simp only [Function.update_of_ne hps] at hj
                simp only [State.set, Function.update_of_ne hps]
                exact hj
            · exact ih hacked hkeep hinit

theorem split_at {rtb : List Entry} {i : Nat} {e : Entry} (h : rtb[i]? = some e) :
    ∃ before after, rtb = before ++ e :: after ∧ (∀ e', rtb.set i e' = before ++ e' :: after) ∧
      rtb.eraseIdx i = before ++ after := by
  obtain ⟨hlt, rfl⟩ := List.getElem?_eq_some_iff.mp h
  refine ⟨rtb.take i, rtb.drop (i + 1), ?_, ?_, List.eraseIdx_eq_take_drop_succ rtb i⟩
  · rw [List.getElem_cons_drop, List.take_append_drop]
  · intro e'
    rw [List.set_eq_take_append_cons_drop, if_pos hlt]

theorem liveFrames_append (rtb rtb' : List Entry) : liveFrames (rtb ++ rtb') = liveFrames rtb ++ liveFrames rtb' := by
  simp [liveFrames]

theorem liveFrames_cons (e : Entry) (rtb : List Entry) :
    liveFrames (e :: rtb) = (if e.live then e.frames else []) ++ liveFrames rtb := by
  cases he : e.live with
  | true => simp [liveFrames, he]
  | false => simp [liveFrames, he]

/-- The frames of a packet are taken out of it. -/
theorem liveFrames_take (before after : List Entry) (e : Entry) {rest : List Entry} (hrest : liveFrames rest = []) :
    ((if e.live then e.frames else []) ++ liveFrames (before ++ (rest ++ after))).Perm (liveFrames (before ++ e :: after)) := by
  rw [liveFrames_append, liveFrames_append, hrest, List.nil_append, liveFrames_append, liveFrames_cons]
  exact List.perm_append_comm_assoc _ _ _

/-- A packet is taken out, or stays as one that does not stand for its frames. -/
theorem Inv.takeOut {s : State} (h : Inv s []) {before after rest : List Entry} {e : Entry} {init : Bool}
    (hrtb : s.rtb = before ++ e :: after) (hrest : liveFrames rest = []) (hframes : ∀ e' ∈ rest, e'.frames = e.frames)
    (hinit : init = false → s.initialPktProcessed = false)
    (hlost : init = false → ∀ e' ∈ rest, e'.lostRetransmitted = false) :
    Inv { s with rtb := before ++ (rest ++ after), initialPktProcessed := init } ((if e.live then e.frames else []) ++ []) := by
  have hperm := liveFrames_take before after e hrest
  have hold : ∀ e' ∈ before ++ (rest ++ after), e' ∈ s.rtb ∨ e' ∈ rest := by
    intro e' he'
    rw [hrtb]
    simp only [List.mem_append, List.mem_cons] at he' ⊢
    tauto
  have he : e ∈ s.rtb := by
    rw [hrtb]
    exact List.mem_append_right _ List.mem_cons_self
  refine ⟨?_, h.known, ?_, ?_, ?_⟩
  · intro sid strm hs
    have hok := h.streams sid strm hs
    refine hok.perm ?_
    rw [List.nil_append, hrtb, List.append_nil]
    exact framesOf_perm hperm sid
  · intro p hp
    rw [List.append_nil] at hp
    split at hp
    · exact (h.sent e he p hp).1
    · cases hp
  · intro e' he' p hp
    rcases hold e' he' with hmem | hmem
    · exact h.sent e' hmem p hp
    · rw [hframes e' hmem] at hp
      exact h.sent e he p hp
  · intro hnot
    obtain ⟨hl, hnew⟩ := h.early (hinit hnot)
    refine ⟨fun e' he' => ?_, hnew⟩
    rcases hold e' he' with hmem | hmem
    · exact hl e' hmem
    · exact hlost hnot e' hmem

theorem Inv.openStream {s : State} (h : Inv s []) {sid : Nat} (hnew : sid ∉ s.opened) (writable : Bool) :
    Inv { s.set sid { TxStrm.new .stream with shutWr := !writable, finAcked := !writable } with opened := sid :: s.opened } [] := by
  have hold : ∀ j strm, (s.set sid { TxStrm.new .stream with shutWr := !writable, finAcked := !writable }).strms j = some strm →
      (j = sid ∧ strm = { TxStrm.new .stream with shutWr := !writable, finAcked := !writable }) ∨ s.strms j = some strm := by
    intro j strm hj
    by_cases hjs : j = sid
    · subst hjs
      simp only [State.set, Function.update_self, Option.some.injEq] at hj
      exact Or.inl ⟨rfl, hj.symm⟩
    · simp only [State.set, Function.update_of_ne hjs] at hj
      exact Or.inr hj
  have hnone : framesOf sid (liveFrames s.rtb) = [] := by
    rw [List.eq_nil_iff_forall_not_mem]
    intro f hf
    obtain ⟨e, he, hp⟩ := List.mem_flatMap.mp (mem_framesOf.mp hf)
    exact hnew (h.sent e (List.mem_of_mem_filter he) (sid, f) hp).1
  refine ⟨?_, ?_, by simp, ?_, ?_⟩
  · intro j strm hj
    rcases hold j strm hj with ⟨rfl, rfl⟩ | hj
    · change StreamOk _ (framesOf j (liveFrames s.rtb))
      rw [hnone]
      refine ⟨⟨rfl, Acked.new_wf (show 0 < uint64Max by decide), by simp [TxStrm.new], by simp [TxStrm.new], List.Pairwise.nil⟩,
        fun _ => ⟨fun x hx => absurd hx (Nat.not_lt_zero x), fun hshut => Or.inl hshut⟩, by simp [TxStrm.new], by simp [TxStrm.new],
        by simp [TxStrm.new], fun _ => ⟨rfl, rfl⟩, fun hreset => (by cases hreset), fun hfin => hfin⟩
    · exact h.streams j strm hj
  · intro j strm hj
    rcases hold j strm hj with ⟨rfl, _⟩ | hj
    · exact List.mem_cons_self
    · exact List.mem_cons_of_mem _ (h.known j strm hj)
  · intro e he p hp
    obtain ⟨hopened, hof⟩ := h.sent e he p hp
    refine ⟨List.mem_cons_of_mem _ hopened, fun strm hj => ?_⟩
    rcases hold p.1 strm hj with ⟨heq, _⟩ | hj
    · exact absurd (heq ▸ hopened) hnew
    · exact hof strm hj
  · intro hinit
    obtain ⟨hlost, hacked⟩ := h.early hinit
    refine ⟨hlost, fun j strm hj => ?_⟩
    rcases hold j strm hj with ⟨_, rfl⟩ | hj
    · exact ⟨rfl, fun _ => rfl⟩
    · exact hacked j strm hj

theorem FrameOf.accept {s : TxStrm} {f : TxFrame} (h : FrameOf s f) (hopen : s.shutWr = false) (n : Nat) (fin : Bool) :
    FrameOf (accept s n fin) f := by
  refine ⟨h.ok, h.data, Nat.le_trans h.le (Nat.le_add_right _ _), fun hfin => ?_⟩
  have hshut := (h.fin hfin).2
  rw [hopen] at hshut
  cases hshut

end Zngtcp2.StreamTx
