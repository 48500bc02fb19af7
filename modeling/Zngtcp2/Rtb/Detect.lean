import Zngtcp2.Rtb.Runs

namespace Zngtcp2.RtbTx

open Lib.Run
open Strm (Stop)

/-- When the loss of the packet is due, as a `ngtcp2_tstamp`. -/
def Loss.due (l : Loss) (e : Entry) : Nat :=
  (e.ts + l.delay) % 2 ^ 64

/-- `rtb_pkt_lost` on `cstat->loss_time`, for a packet that is not lost. -/
def Loss.noteLossTime (l : Loss) (lossTime : Nat) (e : Entry) : Nat :=
  if lossTime = uint64Max then l.due e else min lossTime (l.due e)

/-- What the loop that looks for the first lost packet leaves in `cstat->loss_time`. -/
def lossTimeLoop (l : Loss) (lost : Entry → Bool) : Nat → List Entry → Nat
  | lossTime, [] => lossTime
  | lossTime, e :: es =>
      if e.lostRetransmitted then lossTime
      else if lost e then lossTime
      else lossTimeLoop l lost (l.noteLossTime lossTime e) es

namespace Entry

/-- An entry that loss detection comes to at `ts`. -/
def markLost (ts : Nat) (e : Entry) : Entry :=
  if e.lostRetransmitted then e else { e with lostRetransmitted := true, lostTs := ts }

theorem markLost_lost (ts : Nat) (e : Entry) : (e.markLost ts).lostRetransmitted = true := by
  rw [markLost]
  split
  · assumption
  · rfl

/-- What `rtb_on_remove` returns for an entry that is not lost yet. -/
def lostBytes (ccPktNum : Int) (e : Entry) : Nat :=
  if ccPktNum ≤ e.pktNum ∧ e.sent.pmtudProbe = false then e.pktlen else 0

end Entry

namespace Rtb

/-- What `rtb_detect_lost_pkt` leaves in `cstat->loss_time` of the packet number space. -/
def lossTime (r : Rtb) (l : Loss) : Nat :=
  lossTimeLoop l (l.pktLost r.largestAckedTxPktNum (r.pktThres l)) uint64Max
    (r.ents.dropWhile (r.largestAckedTxPktNum < ·.pktNum))

/-- The packet is not known to be lost, is not newer than the newest acknowledged one, and is lost by time or by
packet number. -/
def NewlyLost (r : Rtb) (l : Loss) (e : Entry) : Prop :=
  e.lostRetransmitted = false ∧ e.pktNum ≤ r.largestAckedTxPktNum ∧
    (PktnsRx.tstampElapsed (some e.ts) l.delay l.ts = true ∨ e.pktNum + r.pktThres l ≤ r.largestAckedTxPktNum)

instance (r : Rtb) (l : Loss) : DecidablePred (r.NewlyLost l) :=
  fun e => inferInstanceAs (Decidable (e.lostRetransmitted = false ∧ _ ∧ (_ ∨ _)))

/-- A packet that is still in flight, and not newer than the newest acknowledged one. -/
def InFlight (r : Rtb) (e : Entry) : Prop :=
  e.lostRetransmitted = false ∧ e.pktNum ≤ r.largestAckedTxPktNum

instance (r : Rtb) : DecidablePred r.InFlight :=
  fun e => inferInstanceAs (Decidable (e.lostRetransmitted = false ∧ _))

section Mark

variable {ccPktNum : Int} {c c' : Counters} {e e' : Entry} {es es' : List Entry} {l : Loss}

theorem onRemove_bytes {n : Nat} (h : c.onRemove ccPktNum e = .ok (c', n)) (hlive : e.lostRetransmitted = false) :
    n = e.lostBytes ccPktNum := by
  rw [Counters.onRemove, hlive, if_neg Bool.false_ne_true] at h
  obtain ⟨numAckEliciting, -, h⟩ := bind_ok h
  obtain ⟨numRetransmittable, -, h⟩ := bind_ok h
  obtain ⟨numPtoEliciting, -, h⟩ := bind_ok h
  rw [Counters.takeBytes] at h
  rw [Entry.lostBytes]
  split at h
  · rename_i hcc
    split at h
    · cases h
    · cases h
      by_cases hp : e.sent.pmtudProbe = true
      · rw [if_pos hp, if_neg (by simp [hp])]
      · rw [Bool.not_eq_true] at hp
        rw [hp, if_neg Bool.false_ne_true, if_pos ⟨hcc, rfl⟩]
  · rename_i hcc
    cases h
    rw [if_neg fun hand => hcc hand.1]

theorem map_markLost_lost {ts : Nat} (h : ∀ e ∈ es, e.lostRetransmitted = true) : es.map (Entry.markLost ts) = es := by
  conv_rhs => rw [← List.map_id es]
  apply List.map_congr_left
  intro e he
  rw [Entry.markLost, if_pos (h e he), id]

/-- The loop marks every entry that is left; where it stops, all entries behind are lost already. -/
theorem markLost_eq {run : LostRun} {b n : Nat} (h : markLost ccPktNum l c run b es = .ok (c', es', n)) (ho : Ordered es) :
    es' = es.map (Entry.markLost l.ts) ∧
      n = b + ((es.filter (!·.lostRetransmitted)).map (Entry.lostBytes ccPktNum)).sum := by
  induction es generalizing c run b es' n with
  | nil =>
      cases h
      exact ⟨rfl, rfl⟩
  | cons e es ih =>
      have htail := ho.sublist (List.sublist_cons_self e es)
      rw [markLost] at h
      simp only at h
      split at h
      · rename_i hlost
        have hall : ∀ a ∈ e :: es, a.lostRetransmitted = true :=
          List.forall_mem_cons.mpr ⟨hlost, fun a ha => (List.pairwise_cons.mp ho.lost).1 a ha hlost⟩
        have hnone : (e :: es).filter (!·.lostRetransmitted) = [] := by
          apply List.filter_eq_nil_iff.mpr
          intro a ha
          rw [hall a ha]
          exact Bool.false_ne_true
        split at h
        · cases h
          rw [hnone]
          exact ⟨(map_markLost_lost hall).symm, rfl⟩
        · obtain ⟨⟨c₁, es₁, n₁⟩, hrun, h⟩ := bind_ok h
          cases h
          obtain ⟨rfl, rfl⟩ := ih hrun htail
          have hmark : e.markLost l.ts = e := by rw [Entry.markLost, if_pos hlost]
          rw [List.map_cons, hmark, List.filter_cons_of_neg (by rw [hlost]; exact Bool.false_ne_true)]
          exact ⟨rfl, rfl⟩
      · rename_i hlive
        rw [Bool.not_eq_true] at hlive
        obtain ⟨⟨c₁, n₁⟩, hremove, h⟩ := bind_ok h
        obtain ⟨⟨c₂, e₁⟩, hmark, h⟩ := bind_ok h
        obtain ⟨⟨c₃, es₁, n₂⟩, hrun, h⟩ := bind_ok h
        cases h
        obtain ⟨rfl, rfl⟩ := ih hrun htail
        have he₁ : e₁ = e.markLost l.ts := by
          rw [Counters.onPktLost] at hmark
          split at hmark
          · cases hmark
          · cases hmark
            rw [Entry.markLost, hlive, if_neg Bool.false_ne_true]
        rw [he₁, onRemove_bytes hremove hlive, List.filter_cons_of_pos (by rw [hlive]; rfl), List.map_cons, List.map_cons,
          List.sum_cons, Nat.add_assoc]
        exact ⟨rfl, rfl⟩

end Mark

section Search

variable {lost : Entry → Bool} {es : List Entry}

/-- None that is passed over is lost. -/
theorem splitLost_before : ∀ e ∈ (splitLost lost es).1, e.lostRetransmitted = false → Ordered es → lost e = false := by
  induction es with
  | nil => exact fun e he => by cases he
  | cons a as ih =>
      intro e he hlive ho
      rw [splitLost] at he
      split at he
      · rename_i hlost
        obtain rfl | he := List.mem_cons.mp he
        · rw [hlost] at hlive
          cases hlive
        · rw [(List.pairwise_cons.mp ho.lost).1 e he hlost] at hlive
          cases hlive
      · split at he
        · cases he
        · rename_i hnot
          obtain rfl | he := List.mem_cons.mp he
          · exact Bool.not_eq_true _ ▸ hnot
          · exact ih e he hlive (ho.sublist (List.sublist_cons_self a as))

/-- The test is made for the newest lost packet only; it holds for all older ones, if it is monotone. -/
theorem splitLost_behind (hmono : es.Pairwise fun a b => lost a = true → lost b = true) :
    ∀ e ∈ (splitLost lost es).2, lost e = true := by
  induction es with
  | nil => exact fun e he => by cases he
  | cons a as ih =>
      obtain ⟨hfirst, htail⟩ := List.pairwise_cons.mp hmono
      rw [splitLost]
      split
      · exact fun e he => by cases he
      · split
        · rename_i hlost
          exact List.forall_mem_cons.mpr ⟨hlost, fun e he => hfirst e he hlost⟩
        · exact ih htail

theorem min?_cons_getD {a d : Nat} (as : List Nat) (ha : a ≤ d) : (a :: as).min?.getD d = min a (as.min?.getD d) := by
  rw [List.min?_cons]
  cases as.min? with
  | none => exact (Nat.min_eq_left ha).symm
  | some b => rfl

theorem min?_getD_le {d : Nat} {as : List Nat} (h : ∀ a ∈ as, a ≤ d) : as.min?.getD d ≤ d := by
  cases hmin : as.min? with
  | none => exact Nat.le_refl d
  | some b => exact h b (List.min?_mem hmin)

theorem due_eq {l : Loss} {e : Entry} (hfit : e.ts + l.delay < 2 ^ 64) : l.due e = e.ts + l.delay ∧ e.ts + l.delay ≤ uint64Max :=
  ⟨Nat.mod_eq_of_lt hfit, Nat.le_sub_one_of_lt hfit⟩

theorem noteLossTime_eq {l : Loss} {e : Entry} (t : Nat) (hfit : e.ts + l.delay < 2 ^ 64) :
    l.noteLossTime t e = min t (e.ts + l.delay) := by
  obtain ⟨hdue, hle⟩ := due_eq hfit
  rw [Loss.noteLossTime, hdue]
  split
  · rename_i htop
    rw [htop, Nat.min_eq_right hle]
  · rfl

theorem lossTimeLoop_eq {l : Loss} {t : Nat} (ht : t ≤ uint64Max) (hfit : ∀ e ∈ es, e.ts + l.delay < 2 ^ 64) (ho : Ordered es) :
    lossTimeLoop l lost t es =
      min t (((((splitLost lost es).1.filter (!·.lostRetransmitted)).map fun e => e.ts + l.delay).min?).getD uint64Max) := by
  induction es generalizing t with
  | nil => exact (Nat.min_eq_left ht).symm
  | cons e es ih =>
      rw [lossTimeLoop, splitLost]
      split
      · rename_i hlost
        have hnone : (e :: es).filter (!·.lostRetransmitted) = [] := by
          apply List.filter_eq_nil_iff.mpr
          refine List.forall_mem_cons.mpr ⟨by simp [hlost], fun a ha => ?_⟩
          simp [(List.pairwise_cons.mp ho.lost).1 a ha hlost]
        rw [hnone]
        exact (Nat.min_eq_left ht).symm
      · rename_i hlive
        split
        · exact (Nat.min_eq_left ht).symm
        · obtain ⟨he, hes⟩ := List.forall_mem_cons.mp hfit
          have hnote := noteLossTime_eq t he
          have hle : min t (e.ts + l.delay) ≤ uint64Max := (Nat.min_le_left _ _).trans ht
          rw [hnote, ih hle hes (ho.sublist (List.sublist_cons_self e es)), List.filter_cons_of_pos (by simpa using hlive),
            List.map_cons, min?_cons_getD _ (due_eq he).2, Nat.min_assoc]

end Search

theorem pktLost_iff {r : Rtb} {l : Loss} {e : Entry} :
    l.pktLost r.largestAckedTxPktNum (r.pktThres l) e = true ↔
      PktnsRx.tstampElapsed (some e.ts) l.delay l.ts = true ∨ e.pktNum + r.pktThres l ≤ r.largestAckedTxPktNum := by
  rw [Loss.pktLost, Bool.or_eq_true, decide_eq_true_eq]

theorem pktLost_mono {l : Loss} {largest : Int} {thres : Nat} {a b : Entry} (hnum : b.pktNum < a.pktNum) (hts : b.ts ≤ a.ts)
    (h : l.pktLost largest thres a = true) : l.pktLost largest thres b = true := by
  simp only [Loss.pktLost, PktnsRx.tstampElapsed, Option.any_some, Bool.or_eq_true, decide_eq_true_eq] at h ⊢
  omega

section Detect

variable {r r' : Rtb} {l : Loss}

theorem not_newlyLost {e : Entry} (hl : e.lostRetransmitted = true) : ¬ r.NewlyLost l e := by
  rintro ⟨hlive, -⟩
  rw [hl] at hlive
  cases hlive

theorem mem_takeWhile_newer {e : Entry} (he : e ∈ r.ents.takeWhile (r.largestAckedTxPktNum < ·.pktNum)) :
    r.largestAckedTxPktNum < e.pktNum := by
  have := List.mem_takeWhile_imp he
  simpa using this

theorem detected_passed (h : Sound r) : ∀ e ∈ (r.detected l).1, ¬ r.NewlyLost l e := by
  intro e he ⟨hlive, hle, htest⟩
  rcases List.mem_append.mp he with he | he
  · exact absurd (mem_takeWhile_newer he) (Int.not_lt.mpr hle)
  · have hord := h.ordered.sublist (List.dropWhile_sublist (r.largestAckedTxPktNum < ·.pktNum))
    have hnot := splitLost_before e he hlive hord
    rw [pktLost_iff.mpr htest] at hnot
    cases hnot

theorem detected_lost (h : Sound r) (hts : r.ents.Pairwise fun a b => b.ts ≤ a.ts) :
    ∀ e ∈ (r.detected l).2, e.lostRetransmitted = false → r.NewlyLost l e := by
  intro e he hlive
  have hmono : (r.ents.dropWhile (r.largestAckedTxPktNum < ·.pktNum)).Pairwise fun a b =>
      l.pktLost r.largestAckedTxPktNum (r.pktThres l) a = true → l.pktLost r.largestAckedTxPktNum (r.pktThres l) b = true := by
    refine List.Pairwise.sublist (List.dropWhile_sublist _) (h.ordered.desc.imp₂ ?_ hts)
    exact fun a b hnum hle => pktLost_mono hnum hle
  have hmem : e ∈ r.ents.dropWhile (r.largestAckedTxPktNum < ·.pktNum) := by
    rw [← splitLost_append (l.pktLost r.largestAckedTxPktNum (r.pktThres l)) (r.ents.dropWhile _)]
    exact List.mem_append_right _ he
  exact ⟨hlive, dropWhile_le h.ordered _ e hmem, pktLost_iff.mp (splitLost_behind hmono e he)⟩

/-- The entries of the buffer, with those marked that are newly lost. -/
def marked (r : Rtb) (l : Loss) : List Entry :=
  r.ents.map fun e => if r.NewlyLost l e then { e with lostRetransmitted := true, lostTs := l.ts } else e

theorem marked_eq (h : Sound r) (hts : r.ents.Pairwise fun a b => b.ts ≤ a.ts) :
    r.marked l = (r.detected l).1 ++ (r.detected l).2.map (Entry.markLost l.ts) := by
  rw [marked]
  conv_lhs => rw [← r.detected_append l, List.map_append]
  congr 1
  · conv_rhs => rw [← List.map_id (r.detected l).1]
    apply List.map_congr_left
    intro e he
    rw [if_neg (detected_passed h e he), id]
  · apply List.map_congr_left
    intro e he
    cases hl : e.lostRetransmitted with
    | true => rw [Entry.markLost, if_pos hl, if_neg (not_newlyLost hl)]
    | false => rw [Entry.markLost, hl, if_neg Bool.false_ne_true, if_pos (detected_lost h hts e he hl)]

theorem filter_newlyLost (h : Sound r) (hts : r.ents.Pairwise fun a b => b.ts ≤ a.ts) :
    r.ents.filter (fun e => r.NewlyLost l e) = (r.detected l).2.filter (!·.lostRetransmitted) := by
  conv_lhs => rw [← r.detected_append l, List.filter_append]
  have hpassed : (r.detected l).1.filter (fun e => r.NewlyLost l e) = [] := by
    apply List.filter_eq_nil_iff.mpr
    intro e he
    simpa using detected_passed h e he
  rw [hpassed, List.nil_append]
  apply List.filter_congr
  intro e he
  cases hl : e.lostRetransmitted with
  | true => exact decide_eq_false (not_newlyLost hl)
  | false => exact decide_eq_true (detected_lost h hts e he hl)

theorem dropStale_suffix {keep : Nat} {fresh : Entry → Bool} {c c' : Counters} {es es' : List Entry}
    (h : dropStale keep fresh c es = .ok (c', es')) : ∃ stale, es = stale ++ es' ∧ ∀ e ∈ stale, e.lostRetransmitted = true := by
  induction es generalizing c with
  | nil =>
      rw [dropStale] at h
      split at h
      · cases h
        exact ⟨[], rfl, fun e he => by cases he⟩
      · cases h
  | cons e es ih =>
      rw [dropStale] at h
      split at h
      · cases h
        exact ⟨[], rfl, fun e he => by cases he⟩
      · split at h
        · cases h
        · rename_i hlost
          split at h
          · cases h
            exact ⟨[], rfl, fun e he => by cases he⟩
          · obtain ⟨numLostIgnorePkts, -, h⟩ := bind_ok h
            obtain ⟨stale, rfl, hstale⟩ := ih h
            exact ⟨e :: stale, rfl, List.forall_mem_cons.mpr ⟨by simpa using hlost, hstale⟩⟩

/-- Only lost entries are removed, the oldest ones. -/
theorem removeExcessiveLostPkt_prefix {n : Nat} (h : r.removeExcessiveLostPkt n = .ok r') :
    ∃ stale, r.ents = r'.ents ++ stale ∧ ∀ e ∈ stale, e.lostRetransmitted = true := by
  rw [removeExcessiveLostPkt, removeStale] at h
  obtain ⟨⟨c, es⟩, hdrop, h⟩ := bind_ok h
  cases h
  obtain ⟨stale, hes, hstale⟩ := dropStale_suffix hdrop
  refine ⟨stale.reverse, ?_, fun e he => hstale e (List.mem_reverse.mp he)⟩
  rw [← List.reverse_append, ← hes, List.reverse_reverse]

theorem detectMark_eq {before es : List Entry} {n : Nat} (h : r.detectMark l before es = .ok (r', n)) (ho : Ordered es) :
    r'.ents = before ++ es.map (Entry.markLost l.ts) ∧
      n = ((es.filter (!·.lostRetransmitted)).map (Entry.lostBytes r.ccPktNum)).sum := by
  cases es with
  | nil =>
      cases h
      exact ⟨(List.append_nil before).symm, rfl⟩
  | cons e es =>
      obtain ⟨⟨c, es', n'⟩, hrun, h⟩ := bind_ok h
      cases h
      obtain ⟨rfl, hn⟩ := markLost_eq hrun ho
      exact ⟨rfl, by rw [hn, Nat.zero_add]⟩

/-- What is in flight below the newest acknowledged packet when the losses are marked: what was passed over. -/
theorem lossTime_eq (h : Sound r) (hts : r.ents.Pairwise fun a b => b.ts ≤ a.ts) (hfit : ∀ e ∈ r.ents, e.ts + l.delay < 2 ^ 64) :
    r.lossTime l = ((((r.marked l).filter fun e => r.InFlight e).map fun e => e.ts + l.delay).min?).getD uint64Max := by
  have hsub := List.dropWhile_sublist (l := r.ents) (r.largestAckedTxPktNum < ·.pktNum)
  rw [lossTime, lossTimeLoop_eq (Nat.le_refl _) (fun e he => hfit e (hsub.subset he)) (h.ordered.sublist hsub)]
  have hnewer : (r.ents.takeWhile (r.largestAckedTxPktNum < ·.pktNum)).filter (fun e => r.InFlight e) = [] := by
    apply List.filter_eq_nil_iff.mpr
    intro e he hflight
    exact absurd (mem_takeWhile_newer he) (Int.not_lt.mpr (of_decide_eq_true hflight).2)
  have hlost : ((r.detected l).2.map (Entry.markLost l.ts)).filter (fun e => r.InFlight e) = [] := by
    apply List.filter_eq_nil_iff.mpr
    intro e he hflight
    obtain ⟨a, -, rfl⟩ := List.mem_map.mp he
    have hlive := (of_decide_eq_true hflight).1
    rw [Entry.markLost_lost] at hlive
    cases hlive
  have hpassed : ∀ es : List Entry, (∀ e ∈ es, e.pktNum ≤ r.largestAckedTxPktNum) →
      es.filter (fun e => r.InFlight e) = es.filter (!·.lostRetransmitted) := by
    intro es hle
    apply List.filter_congr
    intro e he
    cases hl : e.lostRetransmitted with
    | true => exact decide_eq_false fun hflight => by simp [hflight.1] at hl
    | false => exact decide_eq_true ⟨hl, hle e he⟩
  rw [marked_eq h hts, List.filter_append, hlost, List.append_nil, detected, List.filter_append, hnewer, List.nil_append]
  rw [hpassed]
  · apply Nat.min_eq_right
    apply min?_getD_le
    intro t ht
    obtain ⟨e, he, rfl⟩ := List.mem_map.mp ht
    refine (due_eq (hfit e ?_)).2
    rw [← r.detected_append l]
    exact List.mem_append_left _ (List.mem_append_right _ (List.mem_of_mem_filter he))
  · intro e he
    apply dropWhile_le h.ordered
    rw [← splitLost_append (l.pktLost r.largestAckedTxPktNum (r.pktThres l)) (r.ents.dropWhile _)]
    exact List.mem_append_left _ he

/-- Loss detection marks exactly the packets that are lost by time or by packet number, reports their bytes, sets the
timer for the others, and then drops the oldest of the lost ones. -/
theorem detectLostPkt_marks_lost (h : Sound r) (hts : r.ents.Pairwise fun a b => b.ts ≤ a.ts)
    (hfit : ∀ e ∈ r.ents, e.ts + l.delay < 2 ^ 64) :
    ∃ r' n stale, r.detectLostPkt l = .ok (r', n) ∧ r.marked l = r'.ents ++ stale ∧
      (∀ e ∈ stale, e.lostRetransmitted = true) ∧
      n = ((r.ents.filter fun e => r.NewlyLost l e).map (Entry.lostBytes r.ccPktNum)).sum ∧
      r.lossTime l = (((r'.ents.filter fun e => r.InFlight e).map fun e => e.ts + l.delay).min?).getD uint64Max ∧
      Accounted r' := by
  obtain ⟨r₁, r₂, n, hmark, -, hdrop, hrun, hpruned⟩ := h.detectLostPkt_parts l
  have hord := h.ordered.sublist (r.detected_append l ▸ List.sublist_append_right (r.detected l).1 (r.detected l).2)
  obtain ⟨hents, hn⟩ := detectMark_eq hmark hord
  obtain ⟨stale, hprefix, hstale⟩ := removeExcessiveLostPkt_prefix hdrop
  have hmarked : r.marked l = r₂.ents ++ stale := by rw [marked_eq h hts, ← hents, hprefix]
  refine ⟨r₂, n, stale, hrun, hmarked, hstale, ?_, ?_, hpruned.sound.accounted⟩
  · rw [hn, filter_newlyLost h hts]
  · have hnone : stale.filter (fun e => r.InFlight e) = [] := by
      apply List.filter_eq_nil_iff.mpr
      intro e he hflight
      have hlive := (of_decide_eq_true hflight).1
      rw [hstale e he] at hlive
      cases hlive
    rw [lossTime_eq h hts hfit, hmarked, List.filter_append, hnone, List.append_nil]

end Detect

/-- A 1-RTT packet of 1200 bytes that is to be acknowledged. -/
def sampleEntry (pktNum : Int) (ts : Nat) : Entry :=
  .init pktNum .oneRtt ts 1200 ⟨true, true, true, false, false⟩

/-- Packets of the application's packet number space, sent at these times. -/
def sampleRtb (largestAcked : Int) (sent : List (Int × Nat)) : Rtb where
  ents := sent.map fun p => sampleEntry p.1 p.2
  largestAckedTxPktNum := largestAcked
  ccPktNum := 0
  counters := ⟨sent.length, sent.length, sent.length, 0, 0, 1200 * sent.length, 1200 * sent.length⟩

def sampleLoss (ts : Nat) : Loss :=
  ⟨ts, 80000000, 80000000, 20000000, 25000000, 0, 1200, true⟩

/-- Of three packets the oldest one is lost by its number, and the timer is set for the second one. -/
theorem detectLostPkt_marks_oldest :
    ∃ r' n, (sampleRtb 6 [(7, 300), (5, 200), (3, 100)]).detectLostPkt (sampleLoss 1000) = .ok (r', n) ∧ n = 1200 ∧
      (sampleRtb 6 [(7, 300), (5, 200), (3, 100)]).lossTime (sampleLoss 1000) = 90000200 := by
  have hsound : Sound (sampleRtb 6 [(7, 300), (5, 200), (3, 100)]) :=
    ⟨⟨rfl, rfl, rfl, rfl, rfl, rfl, by decide⟩, by decide, by decide, by decide⟩
  obtain ⟨r', n, stale, hrun, -, -, hn, -, -⟩ :=
    detectLostPkt_marks_lost (l := sampleLoss 1000) hsound (by decide) (by decide)
  exact ⟨r', n, hrun, hn, by decide +kernel⟩

/-- A packet with the very number that is the newest acknowledged one is marked as well, and a time that does not fit
its type is cut off. -/
theorem detectLostPkt_marks_largest :
    (¬ ∀ (r r' : Rtb) (l : Loss) (n : Nat), Sound r → (r.ents.Pairwise fun a b => b.ts ≤ a.ts) →
        r.detectLostPkt l = .ok (r', n) →
        ∀ e ∈ r'.ents, e.lostRetransmitted = true → e ∉ r.ents → e.pktNum < r.largestAckedTxPktNum) ∧
      ¬ ∀ (r : Rtb) (l : Loss), Sound r → (r.ents.Pairwise fun a b => b.ts ≤ a.ts) →
        r.lossTime l = (((r.ents.filter fun e => !r.NewlyLost l e).map fun e => e.ts + l.delay).min?).getD uint64Max := by
  constructor
  · intro h
    have hsound : Sound (sampleRtb 5 [(5, 100)]) := ⟨⟨rfl, rfl, rfl, rfl, rfl, rfl, by decide⟩, by decide, by decide, by decide⟩
    have hlt := h (sampleRtb 5 [(5, 100)]) _ (sampleLoss 1000000000) 1200 hsound (by decide) rfl
      ((sampleEntry 5 100).markLost 1000000000) (by decide +kernel) rfl (by decide +kernel)
    exact absurd hlt (by decide)
  · intro h
    have hsound : Sound (sampleRtb 5 [(4, 2 ^ 64 - 2)]) :=
      ⟨⟨rfl, rfl, rfl, rfl, rfl, rfl, by decide⟩, by decide, by decide, by decide⟩
    have heq := h (sampleRtb 5 [(4, 2 ^ 64 - 2)]) (sampleLoss 1000) hsound (by decide)
    exact absurd heq (by decide +kernel)

end Rtb

end Zngtcp2.RtbTx
