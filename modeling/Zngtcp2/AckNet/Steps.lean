import Zngtcp2.AckNet.Model

namespace Zngtcp2.AckNet

open Lib.Run PktnsRx
open RtbTx (Tracked Rtb Loss Op SentFlags State recvAckProcess covers coversRanges)
open Strm (Stop)

section Buffer

variable {r r' r'' : Rtb}

/-- The entries that are left were there before, under their packet numbers, and no entry becomes or
ceases to be a skipped one. -/
def Thinned (r r' : Rtb) : Prop :=
  ∀ e ∈ r'.ents, ∃ a ∈ r.ents, a.pktNum = e.pktNum ∧ a.sent.skip = e.sent.skip

theorem Thinned.of_subset (h : r'.ents ⊆ r.ents) : Thinned r r' :=
  fun e he => ⟨e, h he, rfl, rfl⟩

theorem Thinned.trans (h : Thinned r r') (h' : Thinned r' r'') : Thinned r r'' := by
  intro e he
  obtain ⟨a, ha, hnum, hskip⟩ := h' e he
  obtain ⟨b, hb, hnum', hskip'⟩ := h a ha
  exact ⟨b, hb, hnum'.trans hnum, hskip'.trans hskip⟩

theorem thinned_of_detected {keep : Nat} (h : Rtb.Detected keep r r') : Thinned r r' := by
  intro e he
  obtain ⟨dropped, hmap, -, -⟩ := h.ents
  have hmem : e.unmarked ∈ r.ents.map RtbTx.Entry.unmarked := by
    rw [← hmap]
    exact List.mem_map_of_mem (List.mem_append_left dropped he)
  obtain ⟨a, ha, heq⟩ := List.mem_map.mp hmem
  have hnum : a.unmarked.pktNum = e.unmarked.pktNum := congrArg RtbTx.Entry.pktNum heq
  have hsent : a.unmarked.sent = e.unmarked.sent := congrArg RtbTx.Entry.sent heq
  exact ⟨a, ha, hnum, congrArg SentFlags.skip hsent⟩

theorem reclaimLoop_skips {reclaimed : RtbTx.Entry → Nat} {n n' : Nat} {c c' : RtbTx.Counters}
    {es es' : List RtbTx.Entry} (h : Rtb.reclaimLoop reclaimed n c es = .ok (n', c', es')) :
    es'.map (fun e => (e.pktNum, e.sent.skip)) = es.map fun e => (e.pktNum, e.sent.skip) := by
  induction es generalizing n c es' with
  | nil =>
      cases h
      rfl
  | cons e es ih =>
      rw [Rtb.reclaimLoop] at h
      split at h
      · cases h
        rfl
      · split at h
        · obtain ⟨⟨n₁, c₁, es₁⟩, hrun, hok⟩ := bind_ok h
          cases hok
          rw [List.map_cons, List.map_cons, ih hrun]
        · obtain ⟨m, -, h⟩ := bind_ok h
          obtain ⟨k, -, h⟩ := bind_ok h
          obtain ⟨⟨n₁, c₁, es₁⟩, hrun, hok⟩ := bind_ok h
          cases hok
          rw [List.map_cons, List.map_cons, ih hrun]

theorem reclaimOnPto_thinned {reclaimed : RtbTx.Entry → Nat} {n n' : Nat} (h : r.reclaimOnPto reclaimed n = .ok (r', n')) :
    Thinned r r' := by
  obtain ⟨⟨left, c, es⟩, hrun, hok⟩ := bind_ok h
  cases hok
  intro e he
  have hmem : (e.pktNum, e.sent.skip) ∈ r.ents.reverse.map fun e => (e.pktNum, e.sent.skip) := by
    rw [← reclaimLoop_skips hrun]
    exact List.mem_map.mpr ⟨e, List.mem_reverse.mp he, rfl⟩
  obtain ⟨a, ha, heq⟩ := List.mem_map.mp hmem
  obtain ⟨hnum, hskip⟩ := Prod.mk.inj heq
  exact ⟨a, List.mem_reverse.mp ha, hnum, hskip⟩

/-- What the recovery does to the buffer. -/
structure Recovered (s s' : State) : Prop where
  thinned : Thinned s.rtb s'.rtb
  lastPktNum : s'.lastPktNum = s.lastPktNum
  ccPktNum : s'.rtb.ccPktNum = s.rtb.ccPktNum ∨ s'.rtb.ccPktNum = s.lastPktNum + 1

theorem recovered_pruned {s : State} (h : Rtb.Pruned s.rtb r') : Recovered s { s with rtb := r' } :=
  ⟨Thinned.of_subset h.sublist.subset, rfl, Or.inl h.ccPktNum⟩

theorem recovery_step {s : State} (h : s.Inv) {op : Op} (hop : Net.Recovery op) :
    ∃ s', s.step op = .ok s' ∧ Recovered s s' := by
  cases op with
  | add pktNum type ts pktlen sent => cases hop
  | recvAck fr loss => cases hop
  | detectLostPkt loss =>
      obtain ⟨r, n, hrun, hkept⟩ := h.sound.detectLostPkt loss
      refine ⟨{ s with rtb := r }, by rw [State.step, hrun]; rfl, ?_, rfl, Or.inl hkept.ccPktNum⟩
      exact thinned_of_detected (Rtb.detectLostPkt_detected hrun)
  | reclaimOnPto reclaimed numPkts =>
      obtain ⟨r, n, hrun, hkept⟩ := h.sound.reclaimOnPto reclaimed numPkts
      exact ⟨{ s with rtb := r }, by rw [State.step, hrun]; rfl, reclaimOnPto_thinned hrun, rfl, Or.inl hkept.ccPktNum⟩
  | removeExcessiveLostPkt n =>
      obtain ⟨r, hrun, hpruned⟩ := h.sound.removeStale n fun _ => false
      exact ⟨{ s with rtb := r }, by rw [State.step, Rtb.removeExcessiveLostPkt, hrun]; rfl, recovered_pruned hpruned⟩
  | removeExpiredLostPkt timeout ts =>
      obtain ⟨r, hrun, hpruned⟩ := h.sound.removeStale 0 fun e => sub64 ts e.lostTs < timeout
      exact ⟨{ s with rtb := r }, by rw [State.step, Rtb.removeExpiredLostPkt, hrun]; rfl, recovered_pruned hpruned⟩
  | removeEarlyData =>
      obtain ⟨r, hrun, hpruned⟩ := h.sound.removeEarlyData
      exact ⟨{ s with rtb := r }, by rw [State.step, hrun]; rfl, recovered_pruned hpruned⟩
  | resetCcState => exact ⟨_, rfl, Thinned.of_subset (List.Subset.refl _), rfl, Or.inr rfl⟩
  | others bytes => exact ⟨_, rfl, Thinned.of_subset (List.Subset.refl _), rfl, Or.inl rfl⟩

theorem recovery_tracked {t : Tracked (List Int)} {op : Op} (hop : Net.Recovery op) {base : State}
    (hstep : t.base.step op = .ok base) :
    ∃ t', t.step record (.rtb op) = .ok t' ∧ t'.base = base ∧ t'.conn = t.conn ∧ t.Allowed (.rtb op) := by
  have hbind : (t.base.step op >>= fun base => (.ok { t with base := base } : Except Stop (Tracked (List Int)))) =
      .ok { t with base := base } := by
    rw [hstep]
    rfl
  cases op with
  | add pktNum type ts pktlen sent => cases hop
  | recvAck fr loss => cases hop
  | resetCcState =>
      cases hstep
      exact ⟨_, rfl, rfl, rfl, trivial⟩
  | detectLostPkt loss => exact ⟨_, hbind, rfl, rfl, trivial⟩
  | reclaimOnPto reclaimed numPkts => exact ⟨_, hbind, rfl, rfl, trivial⟩
  | removeExcessiveLostPkt n => exact ⟨_, hbind, rfl, rfl, trivial⟩
  | removeExpiredLostPkt timeout ts => exact ⟨_, hbind, rfl, rfl, trivial⟩
  | removeEarlyData => exact ⟨_, hbind, rfl, rfl, trivial⟩
  | others bytes => exact ⟨_, hbind, rfl, rfl, trivial⟩

end Buffer

section Frames

theorem validateRanges_above {minPktNum : Nat} {low : Int} {ranges : List AckRange}
    (h : validateRanges 0 low ranges = .ok ()) (hmin : ∀ x, InRanges low ranges x → minPktNum ≤ x) :
    validateRanges minPktNum low ranges = .ok () := by
  induction ranges generalizing low with
  | nil => rfl
  | cons range ranges ih =>
      rw [validateRanges] at h ⊢
      simp only at h ⊢
      split_ifs at h with hgap hlen hzero
      have heq : low - (range.gap + 2) - range.len = low - range.gap - 2 - range.len := by omega
      have hlow := hmin (low - range.gap - 2 - range.len).toNat (Or.inl (by omega))
      rw [if_neg hgap, if_neg hlen, if_neg (by omega)]
      apply ih h
      intro x hx
      rw [heq] at hx
      exact hmin x (Or.inr hx)

/-- A frame that is valid is valid from the smallest packet number that it acknowledges on. -/
theorem validateAck_above {minPktNum : Nat} {fr : AckFrame} (h : validateAck fr 0 = .ok ())
    (hmin : ∀ x, fr.Acknowledges x → minPktNum ≤ x) : validateAck fr minPktNum = .ok () := by
  rw [validateAck] at h ⊢
  simp only at h ⊢
  split_ifs at h with hfirst hzero
  have hlow := hmin (fr.largestAck - fr.firstAckRange) (Or.inl (by omega))
  rw [if_neg hfirst, if_neg (by omega)]
  exact validateRanges_above h fun x hx => hmin x (Or.inr hx)

theorem coversRanges_inRanges {low n : Int} {ranges : List AckRange} (h : validateRanges 0 low ranges = .ok ())
    (hcovers : coversRanges low ranges n = true) : ∃ x : Nat, (x : Int) = n ∧ InRanges low ranges x := by
  induction ranges generalizing low with
  | nil => cases hcovers
  | cons range ranges ih =>
      rw [validateRanges] at h
      simp only at h
      split_ifs at h with hgap hlen hzero
      rw [coversRanges] at hcovers
      simp only [Bool.or_eq_true, Bool.and_eq_true, decide_eq_true_eq] at hcovers
      obtain hin | hfurther := hcovers
      · exact ⟨n.toNat, by omega, Or.inl (by omega)⟩
      · have heq : low - (range.gap + 2) - range.len = low - range.gap - 2 - range.len := by omega
        rw [heq] at h
        obtain ⟨x, hx, hin⟩ := ih h hfurther
        exact ⟨x, hx, Or.inr hin⟩

/-- What the sender takes as acknowledged is what the frame acknowledges. -/
theorem covers_acknowledges {fr : AckFrame} {n : Int} (h : validateAck fr 0 = .ok ()) (hcovers : covers fr n = true) :
    ∃ x : Nat, (x : Int) = n ∧ fr.Acknowledges x := by
  rw [validateAck] at h
  simp only at h
  split_ifs at h with hfirst hzero
  rw [covers] at hcovers
  simp only [Bool.or_eq_true, Bool.and_eq_true, decide_eq_true_eq] at hcovers
  obtain hin | hfurther := hcovers
  · exact ⟨n.toNat, by omega, Or.inl (by omega)⟩
  · obtain ⟨x, hx, hin⟩ := coversRanges_inRanges h hfurther
    exact ⟨x, hx, Or.inr hin⟩

end Frames

section Receiver

variable {p p' : Pktns}

/-- The receiver's state is sound, and its tracker knows what was committed. -/
structure ReceiverInv (p : Pktns) : Prop where
  inv : PktnsRx.Inv p
  sound : AckState.Sound ⟨p.acktr, p.committed⟩

theorem requireAck_same {pktNum : Nat} (h : p.requireAck pktNum = .ok p') :
    p'.acktr.ents = p.acktr.ents ∧ p'.acktr.maxPktNum = p.acktr.maxPktNum ∧ p'.committed = p.committed := by
  obtain ⟨b, -, hok⟩ := bind_ok h
  cases hok
  exact ⟨rfl, rfl, rfl⟩

theorem increaseEcnCounts_maxPktNum (a : Acktr) (ecn : Fin 4) : (a.increaseEcnCounts ecn).maxPktNum = a.maxPktNum := by
  unfold Acktr.increaseEcnCounts
  split
  all_goals rfl

theorem ReceiverInv.commit (h : ReceiverInv p) {pktNum : Nat} (hle : pktNum ≤ maxPktNum) (hnew : pktNum ∉ p.committed)
    (ecn : Fin 4) (requireAck : Bool) (ts : Nat) :
    ∃ p', p.commitRecvPktNum pktNum ecn requireAck ts = .ok (.ok, p') ∧ ReceiverInv p' ∧
      p'.committed = pktNum :: p.committed := by
  obtain ⟨p', hrun, hinv, hcommitted⟩ := h.inv.commitRecvPktNum hle hnew ecn requireAck ts
  refine ⟨p', hrun, ⟨hinv, ?_⟩, hcommitted⟩
  obtain ⟨hpushed, hacktr⟩ := pushPktNum_committed p pktNum
  rw [Pktns.commitRecvPktNum] at hrun
  obtain ⟨p₁, hp₁, hrun⟩ := bind_ok hrun
  obtain ⟨⟨rv, acktr⟩, hadd, hrun⟩ := bind_ok hrun
  have hsame : p₁.acktr.ents = p.acktr.ents ∧ p₁.acktr.maxPktNum = p.acktr.maxPktNum := by
    cases requireAck with
    | false =>
        cases hp₁
        rw [hacktr]
        exact ⟨rfl, rfl⟩
    | true =>
        obtain ⟨hents, hmax, -⟩ := requireAck_same hp₁
        rw [hacktr] at hents hmax
        exact ⟨hents, hmax⟩
  have hents : (p₁.acktr.increaseEcnCounts ecn).ents = p.acktr.ents := by
    rw [increaseEcnCounts_ents, hsame.1]
  have hmax : (p₁.acktr.increaseEcnCounts ecn).maxPktNum = p.acktr.maxPktNum := by
    rw [increaseEcnCounts_maxPktNum, hsame.2]
  have hsound := h.sound.same hents hmax
  obtain ⟨a, ha, hsound'⟩ := @AckState.Sound.add _ hsound pktNum ts requireAck hnew hle
  cases hadd.symm.trans ha
  cases hrun
  rw [← hcommitted] at hsound'
  exact hsound'

theorem ReceiverInv.recv (h : ReceiverInv p) (pktNum : PktNum) (ecn : Fin 4) (requireAck : Bool) (ts : Nat) :
    ∃ p', PktnsRx.step p (.recv pktNum ecn requireAck ts) = .ok p' ∧ ReceiverInv p' ∧
      p'.committed ⊆ pktNum.val :: p.committed ∧ p.committed ⊆ p'.committed := by
  have hle : pktNum.val ≤ maxPktNum := Nat.le_sub_one_of_lt pktNum.isLt
  obtain ⟨b, hb, hiff⟩ := h.inv.isDuplicate hle
  rw [PktnsRx.step, hb]
  cases b with
  | true => exact ⟨p, rfl, h, List.subset_cons_self _ _, List.Subset.refl _⟩
  | false =>
      obtain ⟨p', hrun, hinv, hcommitted⟩ := h.commit hle (hiff.mp rfl).1 ecn requireAck ts
      simp only [bind, Except.bind, hrun]
      refine ⟨p', rfl, hinv, ?_, ?_⟩
      · rw [hcommitted]
        exact List.Subset.refl _
      · rw [hcommitted]
        exact List.subset_cons_self _ _

/-- Only the tracker changes, and the packet numbers committed are known to it no more than before. -/
theorem ReceiverInv.acktr (h : ReceiverInv p) {a : Acktr} (hsound : AckState.Sound ⟨a, p.committed⟩) :
    ReceiverInv { p with acktr := a } :=
  ⟨h.inv.acktr hsound.descending hsound.covered, hsound⟩

/-- What is claimed of a frame that is on its way. -/
structure AckSound (committed : List Nat) (fr : AckFrame) : Prop where
  valid : validateAck fr 0 = .ok ()
  acknowledges : ∀ x, fr.Acknowledges x → x ∈ committed

theorem AckSound.mono {committed committed' : List Nat} {fr : AckFrame} (h : AckSound committed fr)
    (hsub : committed ⊆ committed') : AckSound committed' fr :=
  ⟨h.valid, fun x hx => hsub (h.acknowledges x hx)⟩

theorem ReceiverInv.createAckFrame (h : ReceiverInv p) (oneRtt : Bool) (ts ackDelay ackDelayExponent : Nat) :
    ∃ fr a, p.acktr.createAckFrame oneRtt ts ackDelay ackDelayExponent = .ok (fr, a) ∧
      ReceiverInv { p with acktr := a } ∧ ∀ f ∈ fr, AckSound p.committed f := by
  obtain ⟨fr, a, hrun, hsound, hframe⟩ := h.sound.createAckFrame oneRtt ts ackDelay ackDelayExponent
  refine ⟨fr, a, hrun, h.acktr hsound, ?_⟩
  intro f hf
  exact ⟨(hframe f hf).valid, (hframe f hf).acknowledges⟩

end Receiver

end Zngtcp2.AckNet
