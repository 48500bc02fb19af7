import Zngtcp2.Lib.Run
import Zngtcp2.Rtb.Model

namespace Zngtcp2.RtbTx

open Lib.Run

namespace Entry

def countsAck (e : Entry) : Bool :=
  !e.lostRetransmitted && e.sent.ackEliciting

def countsRetransmittable (e : Entry) : Bool :=
  !e.lostRetransmitted && (e.sent.retransmittable && !e.ptoReclaimed)

def countsPto (e : Entry) : Bool :=
  !e.lostRetransmitted && e.sent.ptoEliciting

def countsIgnored (e : Entry) : Bool :=
  e.lostRetransmitted && e.ignored

/-- The bytes of the entry that are in flight under the present congestion state. -/
def flight (ccPktNum : Int) (e : Entry) : Nat :=
  if !e.lostRetransmitted && ccPktNum ≤ e.pktNum then e.pktlen else 0

theorem flight_eq_zero {ccPktNum : Int} {e : Entry} (h : e.pktNum < ccPktNum) : e.flight ccPktNum = 0 := by
  rw [flight, decide_eq_false (Int.not_le.mpr h), Bool.and_false]
  rfl

end Entry

/-- The counters are what the entries `es` add up to. -/
structure Counts (ccPktNum : Int) (c : Counters) (es : List Entry) : Prop where
  ackEliciting : c.numAckEliciting = es.countP Entry.countsAck
  retransmittable : c.numRetransmittable = es.countP Entry.countsRetransmittable
  ptoEliciting : c.numPtoEliciting = es.countP Entry.countsPto
  lost : c.numLostPkts = es.countP Entry.lostRetransmitted
  ignored : c.numLostIgnorePkts = es.countP Entry.countsIgnored
  flight : c.ccBytesInFlight = (es.map (Entry.flight ccPktNum)).sum
  inFlight : c.ccBytesInFlight ≤ c.bytesInFlight

theorem Counts.perm {ccPktNum : Int} {c : Counters} {es es' : List Entry} (h : Counts ccPktNum c es) (hp : es.Perm es') :
    Counts ccPktNum c es' := by
  constructor
  · rw [h.ackEliciting, hp.countP_eq]
  · rw [h.retransmittable, hp.countP_eq]
  · rw [h.ptoEliciting, hp.countP_eq]
  · rw [h.lost, hp.countP_eq]
  · rw [h.ignored, hp.countP_eq]
  · rw [h.flight, (hp.map _).sum_eq]
  · exact h.inFlight

theorem decrIf_ok {b : Bool} {n m : Nat} (h : n = m + if b = true then 1 else 0) : decrIf b n = .ok m := by
  cases b with
  | false => simp_all [decrIf]
  | true => simp [decrIf, h]

theorem incrIf_eq (b : Bool) (n : Nat) : incrIf b n = n + if b = true then 1 else 0 := by
  cases b <;> rfl

section

variable {ccPktNum : Int} {c : Counters} {e : Entry} {es : List Entry}

theorem Counts.onAdd (h : Counts ccPktNum c es) (hcc : ccPktNum ≤ e.pktNum) (hpto : e.ptoReclaimed = false)
    (hlost : e.lostRetransmitted = false) : ∃ c', c.onAdd ccPktNum e = .ok c' ∧ Counts ccPktNum c' (e :: es) := by
  rw [Counters.onAdd, if_pos hcc]
  refine ⟨_, rfl, ?_⟩
  have hin := h.inFlight
  constructor
  · simp [incrIf_eq, h.ackEliciting, List.countP_cons, Entry.countsAck, hlost]
  · simp [incrIf_eq, h.retransmittable, List.countP_cons, Entry.countsRetransmittable, hlost, hpto]
  · simp [incrIf_eq, h.ptoEliciting, List.countP_cons, Entry.countsPto, hlost]
  · simp [h.lost, hlost]
  · simp [h.ignored, Entry.countsIgnored, hlost]
  · simp [h.flight, Entry.flight, hlost, hcc, Nat.add_comm]
  · simp only
    omega

theorem Counts.takeBytes {c : Counters} (hflight : c.ccBytesInFlight = (((e :: es).map (Entry.flight ccPktNum)).sum))
    (hin : c.ccBytesInFlight ≤ c.bytesInFlight) (hlost : e.lostRetransmitted = false) :
    ∃ n m k, c.takeBytes ccPktNum e = .ok ({ c with bytesInFlight := n, ccBytesInFlight := m }, k) ∧
      m = (es.map (Entry.flight ccPktNum)).sum ∧ m ≤ n := by
  rw [List.map_cons, List.sum_cons] at hflight
  rw [Counters.takeBytes]
  split
  · rename_i hcc
    have hone : e.flight ccPktNum = e.pktlen := by simp [Entry.flight, hlost, hcc]
    rw [if_neg (by omega)]
    exact ⟨_, _, _, rfl, by omega, by omega⟩
  · rename_i hcc
    have hone : e.flight ccPktNum = 0 := by simp [Entry.flight, hcc]
    exact ⟨c.bytesInFlight, c.ccBytesInFlight, 0, rfl, by omega, hin⟩

theorem Counts.dropLost (h : Counts ccPktNum c (e :: es)) (hl : e.lostRetransmitted = true) :
    c.numLostPkts = es.countP Entry.lostRetransmitted + 1 ∧
      decrIf e.ignored c.numLostIgnorePkts = .ok (es.countP Entry.countsIgnored) ∧
        Counts ccPktNum { c with
          numLostPkts := es.countP Entry.lostRetransmitted
          numLostIgnorePkts := es.countP Entry.countsIgnored } es := by
  have hlost := h.lost
  have hign := h.ignored
  rw [List.countP_cons] at hlost hign
  simp only [Entry.countsIgnored, hl, Bool.true_and, if_true] at hlost hign
  refine ⟨hlost, decrIf_ok hign, ?_, ?_, ?_, rfl, rfl, ?_, h.inFlight⟩
  · simp [h.ackEliciting, Entry.countsAck, hl]
  · simp [h.retransmittable, Entry.countsRetransmittable, hl]
  · simp [h.ptoEliciting, Entry.countsPto, hl]
  · simp [h.flight, Entry.flight, hl]

theorem Counts.onRemove (h : Counts ccPktNum c (e :: es)) :
    ∃ c' n, c.onRemove ccPktNum e = .ok (c', n) ∧ Counts ccPktNum c' es := by
  rw [Counters.onRemove]
  cases hl : e.lostRetransmitted with
  | true =>
      obtain ⟨hlost, hign, hc⟩ := h.dropLost hl
      rw [if_pos rfl, decrIf_ok (b := true) hlost, hign]
      exact ⟨_, _, rfl, hc⟩
  | false =>
      have hack := h.ackEliciting
      have hret := h.retransmittable
      have hpto := h.ptoEliciting
      have hlost := h.lost
      have hign := h.ignored
      rw [List.countP_cons] at hack hret hpto hlost hign
      simp only [Entry.countsAck, Entry.countsRetransmittable, Entry.countsPto, Entry.countsIgnored, hl, Bool.not_false,
        Bool.false_and, Bool.true_and, Bool.false_eq_true, if_false, Nat.add_zero] at hack hret hpto hlost hign ⊢
      rw [decrIf_ok hack, decrIf_ok hret, decrIf_ok hpto]
      simp only [bind, Except.bind]
      obtain ⟨n, m, k, htake, hm, hle⟩ := @Counts.takeBytes ccPktNum e es
        { c with
          numAckEliciting := es.countP Entry.countsAck
          numRetransmittable := es.countP Entry.countsRetransmittable
          numPtoEliciting := es.countP Entry.countsPto } h.flight h.inFlight hl
      exact ⟨_, k, htake, rfl, rfl, rfl, hlost, hign, hm, hle⟩

/-- An entry that is reclaimed on PTO counts no longer as retransmittable, nor as eliciting a PTO. -/
theorem Counts.reclaim (h : Counts ccPktNum c (e :: es)) (hl : e.lostRetransmitted = false) (hp : e.ptoReclaimed = false)
    (hr : e.sent.retransmittable = true) :
    decrIf true c.numRetransmittable = .ok (es.countP Entry.countsRetransmittable) ∧
      decrIf e.sent.ptoEliciting c.numPtoEliciting = .ok (es.countP Entry.countsPto) ∧
        Counts ccPktNum { c with
          numRetransmittable := es.countP Entry.countsRetransmittable
          numPtoEliciting := es.countP Entry.countsPto }
          ({ e with ptoReclaimed := true, sent := { e.sent with ptoEliciting := false } } :: es) := by
  have hret := h.retransmittable
  have hpto := h.ptoEliciting
  rw [List.countP_cons] at hret hpto
  simp only [Entry.countsRetransmittable, Entry.countsPto, hl, hp, hr, Bool.not_false, Bool.true_and, Bool.and_self,
    if_true] at hret hpto
  refine ⟨decrIf_ok hret, decrIf_ok hpto, ?_, ?_, ?_, ?_, ?_, ?_, h.inFlight⟩
  · simp only [h.ackEliciting, List.countP_cons]
    rfl
  · simp [Entry.countsRetransmittable]
  · simp [Entry.countsPto]
  · simp only [h.lost, List.countP_cons]
  · simp only [h.ignored, List.countP_cons]
    rfl
  · simp only [h.flight, List.map_cons, List.sum_cons]
    rfl

theorem Counts.onPktLost (h : Counts ccPktNum c es) (hts : e.lostRetransmitted = false → e.lostTs = uint64Max)
    (hlost : e.lostRetransmitted = false) (ts : Nat) :
    ∃ c', c.onPktLost e ts = .ok (c', { e with lostRetransmitted := true, lostTs := ts }) ∧
      Counts ccPktNum c' ({ e with lostRetransmitted := true, lostTs := ts } :: es) := by
  rw [Counters.onPktLost, if_neg (by simp [hlost, hts hlost])]
  refine ⟨_, rfl, ?_⟩
  constructor
  · simp [h.ackEliciting, Entry.countsAck]
  · simp [h.retransmittable, Entry.countsRetransmittable]
  · simp [h.ptoEliciting, Entry.countsPto]
  · simp [h.lost]
  · simp only [incrIf_eq, h.ignored, List.countP_cons, Entry.countsIgnored, Bool.true_and]
    rfl
  · simp [h.flight, Entry.flight]
  · exact h.inFlight

end

/-- What the loops rely on of the list: the order of the keys, and that behind a lost entry there
are only lost ones. -/
structure Ordered (es : List Entry) : Prop where
  desc : es.Pairwise fun a b => b.pktNum < a.pktNum
  lost : es.Pairwise fun a b => a.lostRetransmitted = true → b.lostRetransmitted = true
  lostTs : ∀ e ∈ es, e.lostRetransmitted = false → e.lostTs = uint64Max

theorem Ordered.sublist {es es' : List Entry} (h : Ordered es) (hs : es'.Sublist es) : Ordered es' :=
  ⟨h.desc.sublist hs, h.lost.sublist hs, fun e he => h.lostTs e (hs.subset he)⟩

def Entry.key (e : Entry) : Int × Bool × Nat :=
  (e.pktNum, e.lostRetransmitted, e.lostTs)

theorem Ordered.of_keys {es es' : List Entry} (h : Ordered es) (hk : es'.map Entry.key = es.map Entry.key) : Ordered es' := by
  have hdesc : (es.map Entry.key).Pairwise fun a b => b.1 < a.1 := List.pairwise_map.mpr h.desc
  have hlost : (es.map Entry.key).Pairwise fun a b => a.2.1 = true → b.2.1 = true := List.pairwise_map.mpr h.lost
  have hts : ∀ k ∈ es.map Entry.key, k.2.1 = false → k.2.2 = uint64Max := by
    intro k hk
    obtain ⟨e, he, rfl⟩ := List.mem_map.mp hk
    exact h.lostTs e he
  rw [← hk] at hdesc hlost hts
  exact ⟨List.pairwise_map.mp hdesc, List.pairwise_map.mp hlost, fun e he => hts _ (List.mem_map_of_mem he)⟩

/-- The entries from some point on become lost. -/
theorem Ordered.markTail {es es' before : List Entry} (h : Ordered (before ++ es))
    (hk : es'.map Entry.pktNum = es.map Entry.pktNum) (hall : ∀ e ∈ es', e.lostRetransmitted = true) :
    Ordered (before ++ es') := by
  have hbefore := h.sublist (List.sublist_append_left before es)
  constructor
  · have hdesc : ((before ++ es).map Entry.pktNum).Pairwise fun a b => b < a := List.pairwise_map.mpr h.desc
    rw [List.map_append, ← hk, ← List.map_append] at hdesc
    exact List.pairwise_map.mp hdesc
  · refine List.pairwise_append.mpr ⟨hbefore.lost, ?_, fun a _ b hb _ => hall b hb⟩
    exact List.Pairwise.imp_of_mem (fun {a b} _ hb _ _ => hall b hb) (List.pairwise_of_forall (fun _ _ => trivial))
  · intro e he hlost
    rcases List.mem_append.mp he with he | he
    · exact hbefore.lostTs e he hlost
    · rw [hall e he] at hlost
      cases hlost

namespace Rtb

variable {ccPktNum : Int} {c : Counters}

theorem markLost_ok (l : Loss) {es others : List Entry} (hc : Counts ccPktNum c (es ++ others)) (ho : Ordered es)
    (run : LostRun) (bytesLost : Nat) :
    ∃ c' es' n, markLost ccPktNum l c run bytesLost es = .ok (c', es', n) ∧ Counts ccPktNum c' (es' ++ others) ∧
      es'.map Entry.pktNum = es.map Entry.pktNum ∧ ∀ e ∈ es', e.lostRetransmitted = true := by
  induction es generalizing c run bytesLost others with
  | nil => exact ⟨c, [], bytesLost, rfl, hc, rfl, by simp⟩
  | cons e es ih =>
      have htail := ho.sublist (List.sublist_cons_self e es)
      have hmiddle : ∀ a, (es ++ a :: others).Perm (a :: es ++ others) := fun a => List.perm_middle
      rw [markLost]
      split
      · rename_i hlost
        split
        · refine ⟨c, e :: es, bytesLost, rfl, hc, rfl, List.forall_mem_cons.mpr ⟨hlost, fun a ha => ?_⟩⟩
          exact (List.pairwise_cons.mp ho.lost).1 a ha hlost
        · obtain ⟨c', es', n, hrun, hc', hk, hall⟩ := ih (hc.perm (hmiddle e).symm) htail (run.next l e) bytesLost
          rw [hrun]
          refine ⟨c', e :: es', n, rfl, hc'.perm List.perm_middle, ?_, List.forall_mem_cons.mpr ⟨hlost, hall⟩⟩
          rw [List.map_cons, hk, List.map_cons]
      · rename_i hlive
        have hlive : e.lostRetransmitted = false := by simpa using hlive
        obtain ⟨c₁, n₁, hremove, hc₁⟩ := hc.onRemove
        obtain ⟨c₂, hmark, hc₂⟩ := hc₁.onPktLost (ho.lostTs e List.mem_cons_self) hlive l.ts
        obtain ⟨c', es', n, hrun, hc', hk, hall⟩ := ih (hc₂.perm (hmiddle _).symm) htail (run.next l e) (bytesLost + n₁)
        rw [hremove]
        simp only [bind, Except.bind]
        rw [hmark]
        simp only
        rw [hrun]
        refine ⟨c', _ :: es', n, rfl, hc'.perm List.perm_middle, ?_, List.forall_mem_cons.mpr ⟨rfl, hall⟩⟩
        rw [List.map_cons, hk, List.map_cons]

theorem splitLost_append (lost : Entry → Bool) (es : List Entry) : (splitLost lost es).1 ++ (splitLost lost es).2 = es := by
  induction es with
  | nil => rfl
  | cons e es ih =>
      rw [splitLost]
      split
      · exact List.append_nil _
      · split
        · rfl
        · exact congrArg (e :: ·) ih

theorem removeAcked_ends (asserted : Entry → Bool) (minAck : Int) {es others : List Entry}
    (hc : Counts ccPktNum c (es ++ others)) (hok : ∀ e ∈ es, asserted e = true) :
    Ends (fun stop => ∃ rv, stop = .failed rv)
      (fun p => Counts ccPktNum p.1 (p.2.2 ++ others) ∧ p.2.2.Sublist es)
      (removeAcked ccPktNum asserted minAck c es) := by
  induction es generalizing c with
  | nil => exact ⟨hc, List.Sublist.refl _⟩
  | cons e es ih =>
      rw [removeAcked, if_neg (by simp [hok e List.mem_cons_self])]
      split
      · exact ⟨hc, List.Sublist.refl _⟩
      · split
        · exact ⟨_, rfl⟩
        · obtain ⟨c₁, n, hremove, hc₁⟩ := hc.onRemove
          rw [hremove]
          refine Ends.bind (P := fun p : Counters × Nat => Counts ccPktNum p.1 (es ++ others)) hc₁ ?_
          rintro ⟨c₁, n⟩ hc₁
          refine Ends.bind (ih hc₁ fun a ha => hok a (List.mem_cons_of_mem e ha)) ?_
          rintro ⟨c', acked, older⟩ ⟨hc', hsub⟩
          exact ⟨hc', hsub.trans (List.sublist_cons_self e es)⟩

theorem dropEarlyData_ok {es others : List Entry} (hc : Counts ccPktNum c (es ++ others)) :
    ∃ c' es', dropEarlyData ccPktNum c es = .ok (c', es') ∧ Counts ccPktNum c' (es' ++ others) ∧ es'.Sublist es := by
  induction es generalizing c others with
  | nil => exact ⟨c, [], rfl, hc, List.Sublist.refl _⟩
  | cons e es ih =>
      rw [dropEarlyData]
      split
      · obtain ⟨c', es', hrun, hc', hsub⟩ := @ih c (e :: others) (hc.perm List.perm_middle.symm)
        rw [hrun]
        exact ⟨c', e :: es', rfl, hc'.perm List.perm_middle, hsub.cons_cons e⟩
      · obtain ⟨c₁, n, hremove, hc₁⟩ := hc.onRemove
        obtain ⟨c', es', hrun, hc', hsub⟩ := ih hc₁
        rw [hremove]
        exact ⟨c', es', hrun, hc', hsub.trans (List.sublist_cons_self e es)⟩

/-- The oldest entries are the lost ones, if there are any. -/
theorem dropStale_ok (keep : Nat) (fresh : Entry → Bool) {es : List Entry} (hc : Counts ccPktNum c es)
    (ho : es.Pairwise fun a b => b.lostRetransmitted = true → a.lostRetransmitted = true) :
    ∃ c' es', dropStale keep fresh c es = .ok (c', es') ∧ Counts ccPktNum c' es' ∧ es'.Sublist es := by
  induction es generalizing c with
  | nil =>
      have h0 : c.numLostPkts = 0 := hc.lost
      rw [dropStale, if_pos (by omega)]
      exact ⟨c, [], rfl, hc, List.Sublist.refl _⟩
  | cons e es ih =>
      rw [dropStale]
      split
      · exact ⟨c, _, rfl, hc, List.Sublist.refl _⟩
      · rename_i hmany
        obtain ⟨hfirst, htail⟩ := List.pairwise_cons.mp ho
        have hlost : e.lostRetransmitted = true := by
          by_contra hlive
          have hnone : (e :: es).countP Entry.lostRetransmitted = 0 := by
            refine List.countP_eq_zero.mpr (List.forall_mem_cons.mpr ⟨hlive, fun a ha hal => hlive (hfirst a ha hal)⟩)
          have := hc.lost
          omega
        rw [if_neg (by simp [hlost])]
        split
        · exact ⟨c, _, rfl, hc, List.Sublist.refl _⟩
        · obtain ⟨hn, hign, hc₁⟩ := hc.dropLost hlost
          obtain ⟨c', es', hrun, hc', hsub⟩ := ih hc₁ htail
          rw [hign, hn]
          exact ⟨c', es', hrun, hc', hsub.trans (List.sublist_cons_self e es)⟩

theorem reclaimLoop_ok (reclaimed : Entry → Nat) (numPkts : Nat) {es others : List Entry}
    (hc : Counts ccPktNum c (es ++ others)) :
    ∃ n c' es', reclaimLoop reclaimed numPkts c es = .ok (n, c', es') ∧ Counts ccPktNum c' (es' ++ others) ∧
      es'.map Entry.key = es.map Entry.key := by
  induction es generalizing numPkts c others with
  | nil => exact ⟨numPkts, c, [], rfl, hc, rfl⟩
  | cons e es ih =>
      rw [reclaimLoop]
      split
      · exact ⟨numPkts, c, e :: es, rfl, hc, rfl⟩
      · split
        · obtain ⟨n, c', es', hrun, hc', hk⟩ := @ih c numPkts (e :: others) (hc.perm List.perm_middle.symm)
          rw [hrun]
          refine ⟨n, c', e :: es', rfl, hc'.perm List.perm_middle, ?_⟩
          rw [List.map_cons, hk, List.map_cons]
        · rename_i hlive
          simp only [Bool.or_eq_true, Bool.not_eq_true', not_or, Bool.not_eq_true, Bool.not_eq_false] at hlive
          obtain ⟨⟨hlost, hpto⟩, hret⟩ := hlive
          obtain ⟨hr, hp, hc₁⟩ := hc.reclaim hlost hpto hret
          obtain ⟨n, c', es', hrun, hc', hk⟩ :=
            ih (if reclaimed e = 0 then numPkts else numPkts - 1) (hc₁.perm List.perm_middle.symm)
          rw [hr, hp]
          simp only [bind, Except.bind]
          rw [hrun]
          refine ⟨n, c', _ :: es', rfl, hc'.perm List.perm_middle, ?_⟩
          rw [List.map_cons, hk, List.map_cons]
          rfl

end Rtb

end Zngtcp2.RtbTx
