import Zngtcp2.Tx.Stream

namespace Zngtcp2.StreamTx

open Strm TxStrm TxFrame Lib.Run

/-- The frame `g` lies in `f`; neither has copied data. -/
structure Within (g f : TxFrame) : Prop where
  data : g.data = []
  le : f.offset ≤ g.offset
  ge : g.endOff ≤ f.endOff

theorem Within.refl {f : TxFrame} (h : f.data = []) : Within f f :=
  ⟨h, Nat.le_refl _, Nat.le_refl _⟩

theorem Within.trans {a b c : TxFrame} (hab : Within a b) (hbc : Within b c) : Within a c :=
  ⟨hab.data, Nat.le_trans hbc.le hab.le, Nat.le_trans hab.ge hbc.ge⟩

theorem putBack_mem {queue queue' : List TxFrame} {fr g : TxFrame} (h : putBack queue fr = .ok queue') (hg : g ∈ queue') :
    g = fr ∨ g ∈ queue :=
  (kslInsert_mem (putBack_ok h)).mp hg

theorem unackedPopTxbuf_within {s : TxStrm} {fr p : TxFrame} {txbuf : List UInt8} {rest queue : List TxFrame}
    (hs : ∀ gaps, s.acked.gaps = some gaps → Gaptr.Sorted gaps) (hdata : fr.data = []) (htx : fr.txbuf = some txbuf)
    (hmax : fr.endOff ≤ uint64Max) (h : s.unackedPopTxbuf fr txbuf rest = .ok (some (p, queue))) :
    Within p fr ∧ ∀ g ∈ queue, g ∈ rest ∨ Within g fr := by
  have hend : fr.endOff = fr.offset + txbuf.length := by rw [TxFrame.endOff, datalen, bytes_of_txbuf htx]
  rw [unackedPopTxbuf] at h
  cases hgap : s.acked.unackedRangeAfter fr.offset with
  | none =>
      rw [hgap] at h
      cases h
  | some gap =>
      rw [hgap] at h
      simp only at h
      split at h
      · split at h
        · split at h
          · split at h
            · cases h
            · cases h
          · cases h
            refine ⟨⟨hdata, ?_, ?_⟩, fun g hg => Or.inl hg⟩
            · exact Nat.le_add_right _ _
            · simp [TxFrame.endOff, datalen, bytes, hdata, htx]
        · cases h
      · rename_i hnot
        have hpart : ((txbuf.drop (max gap.begin fr.offset - fr.offset)).take
            (min gap.endOff (fr.offset + txbuf.length) - max gap.begin fr.offset)).length ≤
              fr.offset + txbuf.length - max gap.begin fr.offset := by
          rw [List.length_take, List.length_drop]
          omega
        have hwithin : ∀ fin, Within (TxFrame.mk (max gap.begin fr.offset) fin fr.data (some
            ((txbuf.drop (max gap.begin fr.offset - fr.offset)).take
              (min gap.endOff (fr.offset + txbuf.length) - max gap.begin fr.offset)))) fr := by
          intro fin
          refine ⟨hdata, Nat.le_max_right _ _, ?_⟩
          simp only [TxFrame.endOff, datalen, bytes, Option.getD_some, htx]
          omega
        split at h
        · obtain ⟨queue', hback, h⟩ := bind_ok h
          cases h
          refine ⟨hwithin false, fun g hg => ?_⟩
          rcases putBack_mem hback hg with rfl | hg
          · refine Or.inr ⟨rfl, ?_, ?_⟩
            · have hgapEnd := Acked.unackedRangeAfter_end hs hgap
              simp only
              omega
            · simp only [TxFrame.endOff, datalen, bytes, Option.getD_some, htx, List.length_drop]
              omega
          · exact Or.inl hg
        · cases h
          exact ⟨hwithin fr.fin, fun g hg => Or.inl hg⟩

theorem unackedPopVec_within {s : TxStrm} {fr p : TxFrame} {rest queue : List TxFrame} (hdata : fr.data = [])
    (h : s.unackedPopVec fr rest = .ok (some (p, queue))) : Within p fr ∧ queue = rest := by
  rw [unackedPopVec] at h
  cases hgap : s.acked.unackedRangeAfter fr.offset with
  | none =>
      rw [hgap] at h
      cases h
  | some gap =>
      rw [hgap, hdata] at h
      simp only [skipTo, if_true, vecLen_nil, Nat.add_zero] at h
      split at h
      · split at h
        · split at h
          · cases h
          · cases h
        · cases h
          refine ⟨⟨rfl, Nat.le_refl _, ?_⟩, rfl⟩
          simp [TxFrame.endOff, datalen, bytes, hdata]
      · split at h
        · cases h
          exact ⟨Within.refl hdata, rfl⟩
        · cases h

/-- What is taken out of the queue, or put back, lies in a frame of the queue. -/
theorem unackedPop_within {s : TxStrm} (hs : ∀ gaps, s.acked.gaps = some gaps → Gaptr.Sorted gaps)
    {queue queue' : List TxFrame} {p : TxFrame} (hq : ∀ f ∈ queue, f.data = [] ∧ f.endOff ≤ uint64Max)
    (h : s.unackedPop queue = .ok (some (p, queue'))) :
    ∀ g ∈ p :: queue', ∃ f ∈ queue, Within g f := by
  induction queue with
  | nil => cases h
  | cons fr rest ih =>
      obtain ⟨hdata, hmax⟩ := hq fr List.mem_cons_self
      have hrest : ∀ f ∈ rest, f.data = [] ∧ f.endOff ≤ uint64Max := fun f hf => hq f (List.mem_cons_of_mem fr hf)
      have hpop : ∀ {p : TxFrame} {queue : List TxFrame}, s.unackedPopFrame fr rest = .ok (some (p, queue)) →
          ∀ g ∈ p :: queue, ∃ f ∈ fr :: rest, Within g f := by
        intro p queue hframe
        have hboth : Within p fr ∧ ∀ g ∈ queue, g ∈ rest ∨ Within g fr := by
          rw [unackedPopFrame] at hframe
          cases htx : fr.txbuf with
          | some txbuf =>
              rw [htx] at hframe
              exact unackedPopTxbuf_within hs hdata htx hmax hframe
          | none =>
              rw [htx] at hframe
              obtain ⟨hp, rfl⟩ := unackedPopVec_within hdata hframe
              exact ⟨hp, fun g hg => Or.inl hg⟩
        refine List.forall_mem_cons.mpr ⟨⟨fr, List.mem_cons_self, hboth.1⟩, fun g hg => ?_⟩
        rcases hboth.2 g hg with hg | hg
        · exact ⟨g, List.mem_cons_of_mem fr hg, Within.refl (hrest g hg).1⟩
        · exact ⟨fr, List.mem_cons_self, hg⟩
      rw [unackedPop] at h
      split at h
      · intro g hg
        obtain ⟨f, hf, hin⟩ := ih hrest h g hg
        exact ⟨f, List.mem_cons_of_mem fr hf, hin⟩
      · exact hpop h

theorem vecMerge_nil (left : Nat) : (vecMerge maxStreamDatacnt [] [] left).nmerged = 0 ∧
    (vecMerge maxStreamDatacnt [] [] left).dst = [] ∧ (vecMerge maxStreamDatacnt [] [] left).src = [] := by
  simp only [vecMerge, mergeLoop, and_self]

theorem within_putBack {queue queue₁ queue' : List TxFrame} {fr : TxFrame} (hfr : ∃ f ∈ queue, Within fr f)
    (hq : ∀ g ∈ queue₁, ∃ f ∈ queue, Within g f) (h : putBack queue₁ fr = .ok queue') :
    ∀ g ∈ queue', ∃ f ∈ queue, Within g f := by
  intro g hg
  rcases putBack_mem h hg with rfl | hg
  · exact hfr
  · exact hq g hg

/-- A frame without data takes at most FIN from the next one. -/
theorem mergeFrames_within {s : TxStrm} (hs : ∀ gaps, s.acked.gaps = some gaps → Gaptr.Sorted gaps) {fuel : Nat}
    {fr fr' : TxFrame} {data : List Vec} {datalen left : Nat} {queue queue' : List TxFrame}
    (hq : ∀ f ∈ queue, f.data = [] ∧ f.endOff ≤ uint64Max)
    (h : s.mergeFrames fuel fr [] datalen left queue = .ok (fr', data, queue')) :
    data = [] ∧ fr'.offset = fr.offset ∧ fr'.txbuf = fr.txbuf ∧ ∀ g ∈ queue', ∃ f ∈ queue, Within g f := by
  have hsame : ∀ g ∈ queue, ∃ f ∈ queue, Within g f := fun g hg => ⟨g, hg, Within.refl (hq g hg).1⟩
  cases fuel with
  | zero =>
      cases h
      exact ⟨rfl, rfl, rfl, hsame⟩
  | succ fuel =>
      rw [mergeFrames] at h
      split at h
      · cases h
        exact ⟨rfl, rfl, rfl, hsame⟩
      · obtain ⟨off, _, h⟩ := bind_ok h
        cases off with
        | none =>
            cases h
            exact ⟨rfl, rfl, rfl, hsame⟩
        | some off =>
            simp only at h
            split at h
            · split at h
              · cases h
                exact ⟨rfl, rfl, rfl, hsame⟩
              · cases h
            · obtain ⟨r, hpop, h⟩ := bind_ok h
              cases r with
              | none =>
                  cases h
                  exact ⟨rfl, rfl, rfl, by simp⟩
              | some r =>
                  obtain ⟨nfr, queue₁⟩ := r
                  have hin := unackedPop_within hs hq hpop
                  obtain ⟨hnfr, hrest⟩ := List.forall_mem_cons.mp hin
                  have hnd : nfr.data = [] := by
                    obtain ⟨f, _, hw⟩ := hnfr
                    exact hw.data
                  simp only [hnd] at h
                  split at h
                  · obtain ⟨queue₂, hback, h⟩ := bind_ok h
                    cases h
                    exact ⟨rfl, rfl, rfl, within_putBack hnfr hrest hback⟩
                  · split at h
                    · cases h
                      exact ⟨rfl, rfl, rfl, hrest⟩
                    · obtain ⟨hm, hd, hsrc⟩ := vecMerge_nil left
                      rw [if_pos hm] at h
                      obtain ⟨queue₂, hback, h⟩ := bind_ok h
                      cases h
                      refine ⟨hd, rfl, rfl, within_putBack ?_ hrest hback⟩
                      obtain ⟨f, hf, hw⟩ := hnfr
                      refine ⟨f, hf, hsrc, hw.le, ?_⟩
                      have hge := hw.ge
                      simp only [TxFrame.endOff, TxFrame.datalen, bytes, hnd, hsrc] at hge ⊢
                      exact hge

theorem streamfrqPop_within {s : TxStrm} (hs : ∀ gaps, s.acked.gaps = some gaps → Gaptr.Sorted gaps)
    (hq : ∀ f ∈ s.queue, f.data = [] ∧ f.endOff ≤ uint64Max) {left : Nat} {res : Option TxFrame} {queue : List TxFrame}
    (h : s.streamfrqPop left = .ok (res, queue)) : ∀ g ∈ res.toList ++ queue, ∃ f ∈ s.queue, Within g f := by
  rw [streamfrqPop] at h
  obtain ⟨r, hpop, h⟩ := bind_ok h
  cases r with
  | none =>
      cases h
      simp
  | some r =>
      obtain ⟨fr, queue₁⟩ := r
      obtain ⟨⟨f, hf, hfr⟩, hrest⟩ := List.forall_mem_cons.mp (unackedPop_within hs hq hpop)
      have hmax : fr.endOff ≤ uint64Max := Nat.le_trans hfr.ge (hq f hf).2
      have hq₁ : ∀ g ∈ queue₁, g.data = [] ∧ g.endOff ≤ uint64Max := by
        intro g hg
        obtain ⟨f', hf', hw⟩ := hrest g hg
        exact ⟨hw.data, Nat.le_trans hw.ge (hq f' hf').2⟩
      simp only at h
      split at h
      · obtain ⟨queue₂, hback, h⟩ := bind_ok h
        cases h
        exact within_putBack ⟨f, hf, hfr⟩ hrest hback
      · split at h
        · rename_i hlt
          cases htx : fr.txbuf with
          | some txbuf =>
              rw [htx] at h
              have hlen : fr.datalen = txbuf.length := by rw [datalen, bytes_of_txbuf htx]
              obtain ⟨queue₂, hback, h⟩ := bind_ok h
              cases h
              have htake : Within { fr with fin := false, txbuf := some (txbuf.take left) } fr := by
                refine ⟨hfr.data, Nat.le_refl _, ?_⟩
                simp only [TxFrame.endOff, datalen, bytes, Option.getD_some, htx, List.length_take]
                omega
              have hdrop : Within ⟨fr.offset + left, fr.fin, [], some (txbuf.drop left)⟩ fr := by
                refine ⟨rfl, Nat.le_add_right _ _, ?_⟩
                simp only [TxFrame.endOff, datalen, bytes, Option.getD_some, htx, List.length_drop]
                omega
              refine List.forall_mem_cons.mpr ⟨⟨f, hf, htake.trans hfr⟩, ?_⟩
              exact within_putBack ⟨f, hf, hdrop.trans hfr⟩ hrest hback
          | none =>
              rw [datalen_of_data htx, hfr.data, vecLen_nil] at hlt
              exact absurd hlt (Nat.not_lt_zero left)
        · split at h
          · cases h
            exact List.forall_mem_cons.mpr ⟨⟨f, hf, hfr⟩, hrest⟩
          · obtain ⟨⟨fr', data, queue₂⟩, hmerge, h⟩ := bind_ok h
            cases h
            rw [hfr.data] at hmerge
            obtain ⟨hd, hoff, htx, hrest₂⟩ := mergeFrames_within hs hq₁ hmerge
            refine List.forall_mem_cons.mpr ⟨⟨f, hf, hd, hoff ▸ hfr.le, ?_⟩, fun g hg => ?_⟩
            · have hge := hfr.ge
              simp only [TxFrame.endOff, TxFrame.datalen, bytes, hfr.data, hd, hoff, htx] at hge ⊢
              exact hge
            · obtain ⟨g', hg', hw⟩ := hrest₂ g hg
              obtain ⟨f', hf', hw'⟩ := hrest g' hg'
              exact ⟨f', hf', hw.trans hw'⟩

/-- A property of frames that carries over to the parts of a frame. -/
structure Hereditary (P : Nat → TxFrame → Prop) : Prop where
  data : ∀ {sid f}, P sid f → f.data = []
  max : ∀ {sid f}, P sid f → f.endOff ≤ uint64Max
  part : ∀ {sid f g}, P sid f → Within g f → P sid g

/-- The streams: every queued frame has the property, the trackers are in order. -/
structure StrmsFramed (P : Nat → TxFrame → Prop) (strms : Strms) : Prop where
  queued : ∀ sid strm, strms sid = some strm → ∀ f ∈ strm.queue, P sid f
  sorted : ∀ sid strm, strms sid = some strm → ∀ gaps, strm.acked.gaps = some gaps → Gaptr.Sorted gaps

variable {P : Nat → TxFrame → Prop}

theorem StrmsFramed.set {strms : Strms} (h : StrmsFramed P strms) {sid : Nat} {strm : TxStrm}
    (hq : ∀ f ∈ strm.queue, P sid f) (hs : ∀ gaps, strm.acked.gaps = some gaps → Gaptr.Sorted gaps) :
    StrmsFramed P (Function.update strms sid (some strm)) := by
  constructor
  · intro j strm' hj
    by_cases hjs : j = sid
    · subst hjs
      rw [Function.update_self, Option.some.injEq] at hj
      subst hj
      exact hq
    · rw [Function.update_of_ne hjs] at hj
      exact h.queued j strm' hj
  · intro j strm' hj
    by_cases hjs : j = sid
    · subst hjs
      rw [Function.update_self, Option.some.injEq] at hj
      subst hj
      exact hs
    · rw [Function.update_of_ne hjs] at hj
      exact h.sorted j strm' hj

theorem StrmsFramed.close {strms : Strms} (h : StrmsFramed P strms) (sid : Nat) :
    StrmsFramed P (Function.update strms sid none) := by
  have hold : ∀ j strm, Function.update strms sid none j = some strm → strms j = some strm := by
    intro j strm hj
    by_cases hjs : j = sid
    · subst hjs
      rw [Function.update_self] at hj
      cases hj
    · rwa [Function.update_of_ne hjs] at hj
  exact ⟨fun j strm hj => h.queued j strm (hold j strm hj), fun j strm hj => h.sorted j strm (hold j strm hj)⟩

theorem StrmsFramed.push {strms : Strms} (h : StrmsFramed P strms) {sid : Nat} {strm : TxStrm} (hs : strms sid = some strm)
    {fr : TxFrame} (hfr : P sid fr) {queue : List TxFrame} (hpush : streamfrqPush strm.queue fr = .ok queue) :
    ∀ f ∈ queue, P sid f := by
  intro f hf
  rcases (kslInsert_mem (streamfrqPush_ok hpush).2).mp hf with rfl | hf
  · exact hfr
  · exact h.queued sid strm hs f hf

/-- The streams change, but not how much was accepted for them. -/
structure Carries (P : Nat → TxFrame → Prop) (strms strms' : Strms) : Prop where
  framed : StrmsFramed P strms'
  offset : ∀ sid strm', strms' sid = some strm' → ∃ strm, strms sid = some strm ∧ strm'.offset = strm.offset

theorem StrmsFramed.carries {strms : Strms} (h : StrmsFramed P strms) : Carries P strms strms :=
  ⟨h, fun _ strm hs => ⟨strm, hs, rfl⟩⟩

theorem Carries.trans {strms strms' strms'' : Strms} (h : Carries P strms strms') (h' : Carries P strms' strms'') :
    Carries P strms strms'' := by
  refine ⟨h'.framed, fun sid strm'' hs => ?_⟩
  obtain ⟨strm', hs', hoff'⟩ := h'.offset sid strm'' hs
  obtain ⟨strm, hs, hoff⟩ := h.offset sid strm' hs'
  exact ⟨strm, hs, hoff'.trans hoff⟩

theorem StrmsFramed.carries_set {strms : Strms} (h : StrmsFramed P strms) {sid : Nat} {strm strm' : TxStrm}
    (hs : strms sid = some strm) (hoff : strm'.offset = strm.offset) (hq : ∀ f ∈ strm'.queue, P sid f)
    (hsort : ∀ gaps, strm'.acked.gaps = some gaps → Gaptr.Sorted gaps) :
    Carries P strms (Function.update strms sid (some strm')) := by
  refine ⟨h.set hq hsort, fun j strm₁ hj => ?_⟩
  by_cases hjs : j = sid
  · subst hjs
    rw [Function.update_self, Option.some.injEq] at hj
    subst hj
    exact ⟨strm, hs, hoff⟩
  · rw [Function.update_of_ne hjs] at hj
    exact ⟨strm₁, hj, rfl⟩

theorem StrmsFramed.carries_close {strms : Strms} (h : StrmsFramed P strms) (sid : Nat) :
    Carries P strms (Function.update strms sid none) := by
  refine ⟨h.close sid, fun j strm hj => ?_⟩
  by_cases hjs : j = sid
  · subst hjs
    rw [Function.update_self] at hj
    cases hj
  · rw [Function.update_of_ne hjs] at hj
    exact ⟨strm, hj, rfl⟩

theorem StrmsFramed.pushFrame {strms strms' : Strms} (h : StrmsFramed P strms) {sid : Nat} {strm : TxStrm}
    (hs : strms sid = some strm) {fr : TxFrame} (hfr : P sid fr) (hpush : StreamTx.pushFrame strms sid strm fr = .ok strms') :
    Carries P strms strms' := by
  obtain ⟨queue, hq, hok⟩ := bind_ok hpush
  cases hok
  exact h.carries_set hs rfl (h.push hs hfr hq) (h.sorted sid strm hs)

theorem StrmsFramed.reclaimFrame {frs : List (Nat × TxFrame)} {strms strms' : Strms} (h : StrmsFramed P strms)
    (hfrs : ∀ p ∈ frs, P p.1 p.2) (hrun : StreamTx.reclaimFrame frs strms = .ok strms') : Carries P strms strms' := by
  induction frs generalizing strms with
  | nil =>
      cases hrun
      exact h.carries
  | cons p frs ih =>
      obtain ⟨sid, fr⟩ := p
      have hrest : ∀ p ∈ frs, P p.1 p.2 := fun p hp => hfrs p (List.mem_cons_of_mem _ hp)
      rw [StreamTx.reclaimFrame] at hrun
      cases hs : strms sid with
      | none =>
          rw [hs] at hrun
          exact ih h hrest hrun
      | some strm =>
          rw [hs] at hrun
          simp only at hrun
          split at hrun
          · exact ih h hrest hrun
          · obtain ⟨strms₁, hpush, hrun⟩ := bind_ok hrun
            have hc := h.pushFrame hs (hfrs (sid, fr) List.mem_cons_self) hpush
            exact hc.trans (ih hc.framed hrest hrun)

theorem StrmsFramed.reclaimFrameOnRetry {frs : List (Nat × TxFrame)} {strms strms' : Strms} (h : StrmsFramed P strms)
    (hfrs : ∀ p ∈ frs, P p.1 p.2) (hrun : StreamTx.reclaimFrameOnRetry frs strms = .ok strms') : Carries P strms strms' := by
  induction frs generalizing strms with
  | nil =>
      cases hrun
      exact h.carries
  | cons p frs ih =>
      obtain ⟨sid, fr⟩ := p
      have hrest : ∀ p ∈ frs, P p.1 p.2 := fun p hp => hfrs p (List.mem_cons_of_mem _ hp)
      rw [StreamTx.reclaimFrameOnRetry] at hrun
      cases hs : strms sid with
      | none =>
          rw [hs] at hrun
          exact ih h hrest hrun
      | some strm =>
          rw [hs] at hrun
          obtain ⟨strms₁, hpush, hrun⟩ := bind_ok hrun
          have hc := h.pushFrame hs (hfrs (sid, fr) List.mem_cons_self) hpush
          exact hc.trans (ih hc.framed hrest hrun)

theorem StrmsFramed.processAckedPkt {rxDone : List Nat} {frs : List (Nat × TxFrame)} {strms strms' : Strms}
    (h : StrmsFramed P strms) (hrun : StreamTx.processAckedPkt rxDone frs strms = .ok strms') : Carries P strms strms' := by
  induction frs generalizing strms with
  | nil =>
      cases hrun
      exact h.carries
  | cons p frs ih =>
      obtain ⟨sid, fr⟩ := p
      rw [StreamTx.processAckedPkt] at hrun
      cases hs : strms sid with
      | none =>
          rw [hs] at hrun
          exact ih h hrun
      | some strm =>
          rw [hs] at hrun
          simp only at hrun
          split at hrun
          · cases hrun
          · split at hrun
            · have hc := h.carries_close sid
              exact hc.trans (ih hc.framed hrun)
            · have hc : Carries P strms (Function.update strms sid (some (ackFrame strm fr))) :=
                h.carries_set hs rfl (h.queued sid strm hs) (Acked.sorted_ackData (h.sorted sid strm hs) _ _)
              exact hc.trans (ih hc.framed hrun)

/-- Every frame of the connection, queued or in a packet, has the property. -/
structure Framed (P : Nat → TxFrame → Prop) (s : State) : Prop where
  strms : StrmsFramed P s.strms
  sent : ∀ e ∈ s.rtb, ∀ p ∈ e.frames, P p.1 p.2

theorem Framed.mono {Q : Nat → TxFrame → Prop} {s : State} (h : Framed P s) (hPQ : ∀ sid f, P sid f → Q sid f) : Framed Q s :=
  ⟨⟨fun sid strm hs f hf => hPQ sid f (h.strms.queued sid strm hs f hf), h.strms.sorted⟩,
    fun e he p hp => hPQ p.1 p.2 (h.sent e he p hp)⟩

theorem Framed.finishPkt {pkt : Pkt} (h : Framed P pkt.1) (hpkt : ∀ p ∈ pkt.2, P p.1 p.2) : Framed P (finishPkt pkt) := by
  rw [StreamTx.finishPkt]
  split
  · exact h
  · exact ⟨h.strms, List.forall_mem_cons.mpr ⟨hpkt, h.sent⟩⟩

theorem finishPkt_strms (pkt : Pkt) : (finishPkt pkt).strms = pkt.1.strms ∧ (finishPkt pkt).opened = pkt.1.opened := by
  rw [finishPkt]
  split
  · exact ⟨rfl, rfl⟩
  · exact ⟨rfl, rfl⟩

theorem Framed.writeQueued (hP : Hereditary P) {pkt pkt' : Pkt} (h : Framed P pkt.1) (hpkt : ∀ p ∈ pkt.2, P p.1 p.2)
    {sid left : Nat} (hrun : StreamTx.writeQueued pkt sid left = .ok pkt') :
    Carries P pkt.1.strms pkt'.1.strms ∧ pkt'.1.rtb = pkt.1.rtb ∧ pkt'.1.opened = pkt.1.opened ∧ ∀ p ∈ pkt'.2, P p.1 p.2 := by
  rw [StreamTx.writeQueued] at hrun
  cases hs : pkt.1.strms sid with
  | none =>
      rw [hs] at hrun
      cases hrun
      exact ⟨h.strms.carries, rfl, rfl, hpkt⟩
  | some strm =>
      rw [hs] at hrun
      simp only at hrun
      split at hrun
      · cases hrun
        exact ⟨h.strms.carries, rfl, rfl, hpkt⟩
      · have hsort := h.strms.sorted sid strm hs
        obtain ⟨off, _, hrun⟩ := bind_ok hrun
        cases off with
        | none =>
            cases hrun
            exact ⟨h.strms.carries_set hs rfl (by simp) hsort, rfl, rfl, hpkt⟩
        | some off =>
            obtain ⟨⟨res, queue⟩, hpop, hrun⟩ := bind_ok hrun
            cases hrun
            have hall : ∀ g ∈ res.toList ++ queue, P sid g := by
              intro g hg
              have hq : ∀ f ∈ strm.queue, f.data = [] ∧ f.endOff ≤ uint64Max := fun f hf =>
                ⟨hP.data (h.strms.queued sid strm hs f hf), hP.max (h.strms.queued sid strm hs f hf)⟩
              obtain ⟨f, hf, hw⟩ := streamfrqPop_within hsort hq hpop g hg
              exact hP.part (h.strms.queued sid strm hs f hf) hw
            refine ⟨h.strms.carries_set hs rfl (fun f hf => hall f (List.mem_append_right _ hf)) hsort, rfl, rfl, ?_⟩
            intro p hp
            rcases List.mem_append.mp hp with hp | hp
            · exact hpkt p hp
            · obtain ⟨g, hg, rfl⟩ := List.mem_map.mp hp
              exact hall g (List.mem_append_left _ hg)

theorem Framed.writeRounds (hP : Hereditary P) {rounds : List (Nat × Nat)} {pkt pkt' : Pkt} (h : Framed P pkt.1)
    (hpkt : ∀ p ∈ pkt.2, P p.1 p.2) (hrun : StreamTx.writeRounds rounds pkt = .ok pkt') :
    Carries P pkt.1.strms pkt'.1.strms ∧ pkt'.1.rtb = pkt.1.rtb ∧ pkt'.1.opened = pkt.1.opened ∧ ∀ p ∈ pkt'.2, P p.1 p.2 := by
  induction rounds generalizing pkt with
  | nil =>
      cases hrun
      exact ⟨h.strms.carries, rfl, rfl, hpkt⟩
  | cons r rounds ih =>
      obtain ⟨sid, left⟩ := r
      obtain ⟨pkt₁, hone, hrun⟩ := bind_ok hrun
      obtain ⟨hc, hrtb, hopened, hpkt₁⟩ := h.writeQueued hP hpkt hone
      have h₁ : Framed P pkt₁.1 := ⟨hc.framed, hrtb ▸ h.sent⟩
      obtain ⟨hc', hrtb', hopened', hpkt'⟩ := ih h₁ hpkt₁ hrun
      exact ⟨hc.trans hc', hrtb'.trans hrtb, hopened'.trans hopened, hpkt'⟩

/-- The inputs that accept no data and open no stream. -/
def Input.passive : Input → Bool
  | .openStream _ _ | .send _ _ | .submit _ _ _ => false
  | .acked _ _ | .lost _ | .pto _ | .expired _ | .retry | .shutdownWrite _ | .stopSending _ | .close _ => true

/-- A step that accepts nothing. -/
structure Passed (P : Nat → TxFrame → Prop) (s s' : State) : Prop where
  carries : Carries P s.strms s'.strms
  sent : ∀ e ∈ s'.rtb, ∀ p ∈ e.frames, P p.1 p.2
  opened : s'.opened = s.opened

theorem Framed.passed {s : State} (h : Framed P s) : Passed P s s :=
  ⟨h.strms.carries, h.sent, rfl⟩

theorem Passed.finishPkt {s : State} {pkt : Pkt} (hp : Passed P s pkt.1) (hpkt : ∀ p ∈ pkt.2, P p.1 p.2) :
    Passed P s (StreamTx.finishPkt pkt) := by
  obtain ⟨hstrms, hopened⟩ := finishPkt_strms pkt
  refine ⟨hstrms ▸ hp.carries, ?_, hopened.trans hp.opened⟩
  have hframed : Framed P pkt.1 := ⟨hp.carries.framed, hp.sent⟩
  exact (hframed.finishPkt hpkt).sent

theorem Framed.set_sent {s : State} (h : Framed P s) {i : Nat} {e e' : Entry} (he : s.rtb[i]? = some e)
    (hframes : e'.frames = e.frames) : ∀ e₁ ∈ s.rtb.set i e', ∀ p ∈ e₁.frames, P p.1 p.2 := by
  intro e₁ he₁
  rcases List.mem_or_eq_of_mem_set he₁ with hmem | rfl
  · exact h.sent e₁ hmem
  · rw [hframes]
    exact h.sent e (List.mem_of_getElem? he)

theorem Framed.step_passive {s s' : State} (h : Framed P s) {input : Input} (hp : input.passive = true)
    (hrun : step s input = .ok s') : Passed P s s' := by
  cases input with
  | openStream _ _ | send _ _ | submit _ _ _ => cases hp
  | acked i rxDone =>
      rw [step] at hrun
      split at hrun
      · cases hrun
        exact h.passed
      · obtain ⟨strms, hack, hrun⟩ := bind_ok hrun
        cases hrun
        refine ⟨h.strms.processAckedPkt hack, fun e he => h.sent e ?_, rfl⟩
        exact (List.eraseIdx_sublist s.rtb i).subset he
  | lost i =>
      rw [step] at hrun
      split at hrun
      · cases hrun
        exact h.passed
      · rename_i e he
        split at hrun
        · cases hrun
          exact h.passed
        · obtain ⟨strms, hrec, hrun⟩ := bind_ok hrun
          cases hrun
          refine ⟨?_, h.set_sent he rfl, rfl⟩
          split at hrec
          · cases hrec
            exact h.strms.carries
          · exact h.strms.reclaimFrame (h.sent e (List.mem_of_getElem? he)) hrec
  | pto i =>
      rw [step] at hrun
      split at hrun
      · cases hrun
        exact h.passed
      · rename_i e he
        split at hrun
        · obtain ⟨strms, hrec, hrun⟩ := bind_ok hrun
          cases hrun
          exact ⟨h.strms.reclaimFrame (h.sent e (List.mem_of_getElem? he)) hrec, h.set_sent he rfl, rfl⟩
        · cases hrun
          exact h.passed
  | expired i =>
      rw [step] at hrun
      split at hrun
      · cases hrun
        exact h.passed
      · cases hrun
        split
        · exact ⟨h.strms.carries, fun e he => h.sent e ((List.eraseIdx_sublist s.rtb i).subset he), rfl⟩
        · exact h.passed
  | retry =>
      rw [step] at hrun
      split at hrun
      · cases hrun
        exact h.passed
      · split at hrun
        · cases hrun
        · obtain ⟨strms, hrec, hrun⟩ := bind_ok hrun
          cases hrun
          refine ⟨h.strms.reclaimFrameOnRetry (fun p hp => ?_) hrec, by simp, rfl⟩
          obtain ⟨e, he, hp⟩ := List.mem_flatMap.mp hp
          exact h.sent e (List.mem_of_mem_filter he) p hp
  | shutdownWrite sid =>
      rw [step] at hrun
      split at hrun
      · cases hrun
        exact h.passed
      · rename_i strm hs
        cases hrun
        rw [shutdownStreamWrite]
        split
        · exact ⟨h.strms.carries_set hs rfl (h.strms.queued sid strm hs) (h.strms.sorted sid strm hs), h.sent, rfl⟩
        · exact ⟨h.strms.carries_set hs rfl (by simp) (h.strms.sorted sid strm hs), h.sent, rfl⟩
  | stopSending sid =>
      rw [step] at hrun
      split at hrun
      · cases hrun
        exact h.passed
      · rename_i strm hs
        cases hrun
        exact ⟨h.strms.carries_set hs rfl (by simp [recvStopSending]) (h.strms.sorted sid strm hs), h.sent, rfl⟩
  | close sid =>
      cases hrun
      exact ⟨h.strms.carries_close sid, h.sent, rfl⟩

end Zngtcp2.StreamTx
