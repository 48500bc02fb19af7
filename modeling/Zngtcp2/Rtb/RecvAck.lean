import Zngtcp2.Lib.Sorted
import Zngtcp2.Rtb.Runs

namespace Zngtcp2.RtbTx

open Lib.Run PktnsRx
open Strm (Stop)

/-- `ngtcp2_rst` as far as it is asserted on: the bytes delivered, and for the packet numbers in the
buffer the bytes that had been delivered when the packet was sent. -/
structure Rst where
  delivered : Nat
  sent : Int → Nat

namespace Rst

def init : Rst :=
  ⟨0, fun _ => 0⟩

variable (rst : Rst)

/-- `ngtcp2_rst_on_pkt_sent` -/
def onPktSent (pktNum : Int) : Rst :=
  { rst with sent := Function.update rst.sent pktNum rst.delivered }

theorem onPktSent_self (pktNum : Int) : (rst.onPktSent pktNum).sent pktNum = rst.delivered := by
  simp [onPktSent]

theorem onPktSent_of_ne {pktNum n : Int} (h : n ≠ pktNum) : (rst.onPktSent pktNum).sent n = rst.sent n := by
  simp [onPktSent, h]

/-- `ngtcp2_rst_update_rate_sample` -/
def updateRateSample (pktlen : Nat) : Rst :=
  { rst with delivered := rst.delivered + pktlen }

/-- `ngtcp2_rst_reset` -/
def reset : Rst :=
  { rst with delivered := 0 }

end Rst

/-- The buffer, the delivery counter, and what else of the connection processing an acknowledged
packet works on. -/
structure Acked (σ : Type) where
  rtb : Rtb
  rst : Rst
  conn : σ
  numAcked : Nat

section

variable {σ : Type} (process : Entry → σ → Except Rv σ)

/-- The loop of `ngtcp2_rtb_recv_ack` over the entries that were taken out. `process` is
`process_acked_pkt`, `pktDelivered` the `pkt_delivered` of the ACK. -/
def processAcked (ccPktNum : Int) : Nat → Nat → Rst → σ → List Entry → Except Stop (Rst × σ × Nat)
  | _, numAcked, rst, conn, [] => .ok (rst, conn, numAcked)
  | pktDelivered, numAcked, rst, conn, e :: es =>
      match process e conn with
      | .error rv => .error (.failed rv)
      | .ok conn =>
          if ccPktNum ≤ e.pktNum then
            if rst.sent e.pktNum < pktDelivered then .error (.fault .assertion)
            else processAcked ccPktNum (rst.sent e.pktNum) (numAcked + 1) (rst.updateRateSample e.pktlen) conn es
          else processAcked ccPktNum pktDelivered numAcked rst conn es

/-- `ngtcp2_rtb_recv_ack` with the processing of what is acknowledged. Each entry is taken out to
the front of a list, so that they are processed in the reverse order. -/
def recvAckProcess (r : Rtb) (rst : Rst) (conn : σ) (fr : AckFrame) (l : Loss) : Except Stop (Acked σ) := do
  let largestAck : Int := fr.largestAck
  let r := { r with largestAckedTxPktNum := max r.largestAckedTxPktNum largestAck }
  if r.ents.dropWhile (largestAck < ·.pktNum) = [] then .ok ⟨r, rst, conn, 0⟩
  else do
    let minAck := largestAck - fr.firstAckRange
    let (r, acked) ← r.ackRange (·.pktNum ≤ largestAck) largestAck minAck
    let (r, acked') ← Rtb.ackRanges r minAck fr.ranges
    let (rst, conn, numAcked) ← processAcked process r.ccPktNum 0 0 rst conn (acked ++ acked').reverse
    if numAcked = 0 then .ok ⟨r, rst, conn, 0⟩
    else do
      let (r, _) ← r.detectLostPkt l
      .ok ⟨r, rst, conn, numAcked⟩

end

/-- The packet numbers in the ranges behind `minAck`. -/
def coversRanges : Int → List AckRange → Int → Bool
  | _, [], _ => false
  | minAck, range :: ranges, pktNum =>
      let largestAck := minAck - range.gap - 2
      (largestAck - range.len ≤ pktNum && pktNum ≤ largestAck) || coversRanges (largestAck - range.len) ranges pktNum

/-- The packet numbers in the ranges of the frame. -/
def covers (fr : AckFrame) (pktNum : Int) : Bool :=
  (fr.largestAck - fr.firstAckRange ≤ pktNum && pktNum ≤ fr.largestAck) ||
    coversRanges (fr.largestAck - fr.firstAckRange) fr.ranges pktNum

/-- The ends of the ranges behind `minAck`, as they are computed. -/
def rangeEnds : Int → List AckRange → List Int
  | _, [] => []
  | minAck, range :: ranges =>
      let largestAck := minAck - range.gap - 2
      largestAck :: (largestAck - range.len) :: rangeEnds (largestAck - range.len) ranges

theorem coversRanges_lt {minAck pktNum : Int} {ranges : List AckRange} (h : coversRanges minAck ranges pktNum = true) :
    pktNum < minAck := by
  induction ranges generalizing minAck with
  | nil => cases h
  | cons range ranges ih =>
      rw [coversRanges] at h
      simp only [Bool.or_eq_true, Bool.and_eq_true, decide_eq_true_eq] at h
      obtain ⟨-, hle⟩ | hfurther := h
      · omega
      · have := ih hfurther
        omega

theorem covers_le {fr : AckFrame} {pktNum : Int} (h : covers fr pktNum = true) : pktNum ≤ fr.largestAck := by
  rw [covers] at h
  simp only [Bool.or_eq_true, Bool.and_eq_true, decide_eq_true_eq] at h
  obtain ⟨-, hle⟩ | hfurther := h
  · exact hle
  · have := coversRanges_lt hfurther
    omega

theorem validateRanges_ends {minPktNum minAck : Int} {ranges : List AckRange}
    (h : validateRanges minPktNum minAck ranges = .ok ()) :
    ∀ b ∈ rangeEnds minAck ranges, minPktNum ≤ b ∧ 0 ≤ b ∧ b ≤ minAck := by
  induction ranges generalizing minAck with
  | nil => exact fun b hb => absurd hb List.not_mem_nil
  | cons range ranges ih =>
      rw [validateRanges] at h
      simp only at h
      split_ifs at h with hgap hlen hmin
      rw [rangeEnds]
      have heq : minAck - range.gap - 2 - range.len = minAck - (range.gap + 2) - range.len := by omega
      simp only [heq]
      refine List.forall_mem_cons.mpr ⟨by omega, List.forall_mem_cons.mpr ⟨by omega, ?_⟩⟩
      intro b hb
      obtain ⟨hle, hpos, hlow⟩ := ih h b hb
      exact ⟨hle, hpos, by omega⟩

/-- No end of a range of a valid frame is below zero, nor below the first packet number. -/
theorem validateAck_ends {fr : AckFrame} {minPktNum : Int} (h : validateAck fr minPktNum = .ok ()) :
    ∀ b ∈ (fr.largestAck - fr.firstAckRange : Int) :: rangeEnds (fr.largestAck - fr.firstAckRange) fr.ranges,
      minPktNum ≤ b ∧ 0 ≤ b ∧ b ≤ fr.largestAck := by
  rw [validateAck] at h
  simp only at h
  split_ifs at h with hfirst hmin
  refine List.forall_mem_cons.mpr ⟨by omega, ?_⟩
  intro b hb
  obtain ⟨hle, hpos, hlow⟩ := validateRanges_ends h b hb
  exact ⟨hle, hpos, by omega⟩

namespace Rtb

variable {ccPktNum minAck : Int} {c : Counters}

theorem initial_after {es : List Entry} (h : Ordered es) (pktNum : Int) :
    Lib.Sorted.Initial (fun e => decide (pktNum < e.pktNum)) es := by
  apply h.desc.imp
  intro a b hlt hb
  rw [decide_eq_true_eq] at hb ⊢
  omega

theorem initial_from {es : List Entry} (h : Ordered es) (pktNum : Int) :
    Lib.Sorted.Initial (fun e => decide (pktNum ≤ e.pktNum)) es := by
  apply h.desc.imp
  intro a b hlt hb
  rw [decide_eq_true_eq] at hb ⊢
  omega

/-- The call fails as there is a skipped packet number among the entries `es`. -/
def SkipFound (es : List Entry) (stop : Stop) : Prop :=
  stop = .failed .proto ∧ ∃ e ∈ es, e.sent.skip = true

theorem removeAcked_split (asserted : Entry → Bool) (minAck : Int) {es others : List Entry}
    (hc : Counts ccPktNum c (es ++ others)) (hok : ∀ e ∈ es, asserted e = true) :
    Ends (SkipFound (es.takeWhile (minAck ≤ ·.pktNum)))
      (fun p => Counts ccPktNum p.1 (p.2.2 ++ others) ∧ p.2.1 = es.takeWhile (minAck ≤ ·.pktNum) ∧
        p.2.2 = es.dropWhile (minAck ≤ ·.pktNum) ∧ ∀ e ∈ p.2.1, e.sent.skip = false)
      (removeAcked ccPktNum asserted minAck c es) := by
  induction es generalizing c with
  | nil => exact ⟨hc, rfl, rfl, fun e he => absurd he List.not_mem_nil⟩
  | cons e es ih =>
      rw [removeAcked, if_neg (by simp [hok e List.mem_cons_self])]
      by_cases hlt : e.pktNum < minAck
      · have hnot : decide (minAck ≤ e.pktNum) = false := decide_eq_false (Int.not_le.mpr hlt)
        simp only [List.takeWhile_cons, List.dropWhile_cons, hnot, Bool.false_eq_true, if_false, if_pos hlt]
        exact ⟨hc, rfl, rfl, fun a ha => absurd ha List.not_mem_nil⟩
      · have hin : decide (minAck ≤ e.pktNum) = true := decide_eq_true (Int.not_lt.mp hlt)
        simp only [List.takeWhile_cons, List.dropWhile_cons, hin, if_true, if_neg hlt]
        cases hskip : e.sent.skip with
        | true =>
            rw [if_pos rfl]
            exact ⟨rfl, e, List.mem_cons_self, hskip⟩
        | false =>
            rw [if_neg Bool.false_ne_true]
            obtain ⟨c₁, n, hremove, hc₁⟩ := hc.onRemove
            have hends := ih hc₁ fun a ha => hok a (List.mem_cons_of_mem e ha)
            rw [hremove]
            simp only [bind, Except.bind]
            cases hrun : removeAcked ccPktNum asserted minAck c₁ es with
            | error stop =>
                rw [hrun] at hends
                obtain ⟨heq, a, ha, hfound⟩ := hends
                exact ⟨heq, a, List.mem_cons_of_mem e ha, hfound⟩
            | ok p =>
                rw [hrun] at hends
                obtain ⟨hc', hacked, hleft, hunskipped⟩ := hends
                exact ⟨hc', congrArg (e :: ·) hacked, hleft, List.forall_mem_cons.mpr ⟨hskip, hunskipped⟩⟩

/-- What taking out the entries `acked` leaves of the buffer. -/
structure Took (inRange : Entry → Bool) (r r' : Rtb) (acked : List Entry) : Prop where
  sound : Sound r'
  acked : acked = r.ents.filter inRange
  ents : r'.ents = r.ents.filter (!inRange ·)
  unskipped : ∀ e ∈ r.ents, inRange e = true → e.sent.skip = false
  ccPktNum : r'.ccPktNum = r.ccPktNum
  largestAcked : r'.largestAckedTxPktNum = r.largestAckedTxPktNum

def inRange (minAck largestAck : Int) (e : Entry) : Bool :=
  minAck ≤ e.pktNum && e.pktNum ≤ largestAck

theorem ackRange_took {r : Rtb} (h : Sound r) (asserted : Entry → Bool) {largestAck minAck : Int}
    (hle : minAck ≤ largestAck)
    (hok : ∀ e ∈ r.ents.dropWhile (largestAck < ·.pktNum), asserted e = true) :
    Ends (SkipFound (r.ents.filter (inRange minAck largestAck)))
      (fun p => Took (inRange minAck largestAck) r p.1 p.2) (r.ackRange asserted largestAck minAck) := by
  have hsplit := r.ents.takeWhile_append_dropWhile (p := (largestAck < ·.pktNum))
  have hcounts : Counts r.ccPktNum r.counters
      (r.ents.dropWhile (largestAck < ·.pktNum) ++ r.ents.takeWhile (largestAck < ·.pktNum)) := by
    refine h.counts.perm ?_
    conv_lhs => rw [← hsplit]
    exact List.perm_append_comm
  have hbehind : r.ents.dropWhile (largestAck < ·.pktNum) = r.ents.filter (fun e => !decide (largestAck < e.pktNum)) :=
    Lib.Sorted.dropWhile_eq_filter (initial_after h.ordered largestAck)
  have hordered : Ordered (r.ents.dropWhile (largestAck < ·.pktNum)) := h.ordered.sublist (List.dropWhile_sublist _)
  have htaken : (r.ents.dropWhile (largestAck < ·.pktNum)).takeWhile (minAck ≤ ·.pktNum) =
      r.ents.filter (inRange minAck largestAck) := by
    rw [Lib.Sorted.takeWhile_eq_filter (initial_from hordered minAck), hbehind, List.filter_filter]
    apply List.filter_congr
    intro e _
    simp only [inRange, ← decide_not, Int.not_lt]
  rw [Rtb.ackRange]
  have hends := removeAcked_split asserted minAck hcounts hok
  rw [htaken] at hends
  apply Ends.bind hends
  rintro ⟨c', acked, older⟩ ⟨hc', hacked, hleft, hunskipped⟩
  simp only at hc' hacked hleft hunskipped
  have hents : r.ents.takeWhile (largestAck < ·.pktNum) ++ older = r.ents.filter (!inRange minAck largestAck ·) := by
    rw [hleft, Lib.Sorted.dropWhile_eq_filter (initial_from hordered minAck), hbehind, List.filter_filter,
      Lib.Sorted.takeWhile_eq_filter (initial_after h.ordered largestAck), ← Lib.Sorted.filter_or]
    · apply List.filter_congr
      intro e _
      rw [Bool.eq_iff_iff]
      simp only [inRange, Bool.or_eq_true, Bool.and_eq_true, Bool.not_eq_true', Bool.and_eq_false_iff,
        decide_eq_true_eq, decide_eq_false_iff_not]
      omega
    · apply h.ordered.desc.imp
      intro a b hlt ha
      simp only [Bool.and_eq_true, Bool.not_eq_true', decide_eq_false_iff_not] at ha ⊢
      omega
    · intro a _ ha
      simp only [Bool.and_eq_false_iff, Bool.not_eq_false', decide_eq_true_eq] at ha ⊢
      exact Or.inr ha
  refine ⟨⟨hc'.perm List.perm_append_comm, ?_⟩, hacked, hents, ?_, rfl, rfl⟩
  · change Ordered (r.ents.takeWhile (largestAck < ·.pktNum) ++ older)
    rw [hents]
    exact h.ordered.sublist List.filter_sublist
  · intro e he hin
    apply hunskipped e
    rw [hacked]
    exact List.mem_filter.mpr ⟨he, hin⟩

theorem Took.none {p : Entry → Bool} {r : Rtb} (h : Sound r) (hnone : ∀ e ∈ r.ents, p e = false) : Took p r r [] := by
  refine ⟨h, ?_, ?_, ?_, rfl, rfl⟩
  · symm
    apply List.filter_eq_nil_iff.mpr
    intro e he
    rw [hnone e he]
    exact Bool.false_ne_true
  · symm
    apply List.filter_eq_self.mpr
    intro e he
    rw [hnone e he]
    rfl
  · intro e he hp
    rw [hnone e he] at hp
    cases hp

/-- Taking out entries, and then entries that are all behind them. -/
theorem Took.append {p q : Entry → Bool} {r r₁ r₂ : Rtb} {acked acked' : List Entry} (hordered : Ordered r.ents)
    (h : Took p r r₁ acked) (h' : Took q r₁ r₂ acked') (hpq : ∀ a b : Entry, b.pktNum ≤ a.pktNum → q a = true → p b = false) :
    Took (fun e => p e || q e) r r₂ (acked ++ acked') := by
  have hdisjoint : ∀ e : Entry, q e = true → p e = false := fun e => hpq e e (Int.le_refl _)
  refine ⟨h'.sound, ?_, ?_, ?_, h'.ccPktNum.trans h.ccPktNum, h'.largestAcked.trans h.largestAcked⟩
  · rw [h.acked, h'.acked, h.ents, List.filter_filter, Lib.Sorted.filter_or]
    · congr 1
      apply List.filter_congr
      intro e _
      cases hq : q e with
      | false => rfl
      | true => rw [hdisjoint e hq, Bool.not_false, Bool.true_and]
    · apply hordered.desc.imp
      intro a b hlt
      exact hpq a b (Int.le_of_lt hlt)
    · intro e _ hp
      cases hq : q e with
      | false => rfl
      | true =>
          rw [hdisjoint e hq] at hp
          cases hp
  · rw [h'.ents, h.ents, List.filter_filter]
    apply List.filter_congr
    intro e _
    rw [Bool.not_or, Bool.and_comm]
  · intro e he hor
    cases hp : p e with
    | true => exact h.unskipped e he hp
    | false =>
        rw [hp, Bool.false_or] at hor
        apply h'.unskipped e ?_ hor
        rw [h.ents]
        apply List.mem_filter.mpr ⟨he, ?_⟩
        rw [hp]
        rfl

theorem SkipFound.subset {es es' : List Entry} {stop : Stop} (h : SkipFound es stop) (hs : es ⊆ es') :
    SkipFound es' stop := by
  obtain ⟨heq, e, he, hskip⟩ := h
  exact ⟨heq, e, hs he, hskip⟩

theorem took_bind {p q : Entry → Bool} {r : Rtb} (hordered : Ordered r.ents) {x : Except Stop (Rtb × List Entry)}
    {f : Rtb → Except Stop (Rtb × List Entry)}
    (hx : Ends (SkipFound (r.ents.filter p)) (fun s => Took p r s.1 s.2) x)
    (hf : ∀ r₁ acked, Took p r r₁ acked →
      Ends (SkipFound (r₁.ents.filter q)) (fun s => Took q r₁ s.1 s.2) (f r₁))
    (hpq : ∀ a b : Entry, b.pktNum ≤ a.pktNum → q a = true → p b = false) :
    Ends (SkipFound (r.ents.filter fun e => p e || q e)) (fun s => Took (fun e => p e || q e) r s.1 s.2)
      (x >>= fun s => f s.1 >>= fun s' => .ok (s'.1, s.2 ++ s'.2)) := by
  apply Ends.bind (hx.weaken ?_)
  · rintro ⟨r₁, acked⟩ htook
    apply Ends.bind ((hf r₁ acked htook).weaken ?_)
    · rintro ⟨r₂, acked'⟩ htook'
      exact htook.append hordered htook' hpq
    · intro stop hfound
      apply hfound.subset
      intro e he
      obtain ⟨hmem, hq⟩ := List.mem_filter.mp he
      rw [htook.ents] at hmem
      exact List.mem_filter.mpr ⟨(List.mem_filter.mp hmem).1, Bool.or_eq_true_iff.mpr (Or.inr hq)⟩
  · intro stop hfound
    apply hfound.subset
    intro e he
    obtain ⟨hmem, hp⟩ := List.mem_filter.mp he
    exact List.mem_filter.mpr ⟨hmem, Bool.or_eq_true_iff.mpr (Or.inl hp)⟩

theorem coversRanges_behind {minAck : Int} {ranges : List AckRange} (largestAck : Int) {a b : Entry}
    (hle : b.pktNum ≤ a.pktNum) (h : coversRanges minAck ranges a.pktNum = true) :
    inRange minAck largestAck b = false := by
  have := coversRanges_lt h
  rw [inRange, decide_eq_false (show ¬minAck ≤ b.pktNum by omega), Bool.false_and]

/-- The further ranges take out exactly what they cover, in the order of the entries. -/
theorem ackRanges_took {r : Rtb} (h : Sound r) (minAck : Int) (ranges : List AckRange) :
    Ends (SkipFound (r.ents.filter (coversRanges minAck ranges ·.pktNum)))
      (fun p => Took (coversRanges minAck ranges ·.pktNum) r p.1 p.2) (ackRanges r minAck ranges) := by
  induction ranges generalizing r minAck with
  | nil => exact Took.none h fun _ _ => rfl
  | cons range ranges ih =>
      have hor : (fun e : Entry => coversRanges minAck (range :: ranges) e.pktNum) = fun e =>
          inRange (minAck - range.gap - 2 - range.len) (minAck - range.gap - 2) e ||
            coversRanges (minAck - range.gap - 2 - range.len) ranges e.pktNum := rfl
      rw [Rtb.ackRanges, hor]
      simp only
      generalize minAck - (range.gap : Int) - 2 = largestAck
      by_cases hend : r.ents.dropWhile (largestAck < ·.pktNum) = []
      · rw [if_pos hend]
        apply Took.none h
        intro e he
        have hlt : largestAck < e.pktNum := of_decide_eq_true (List.dropWhile_eq_nil_iff.mp hend e he)
        rw [Bool.or_eq_false_iff]
        constructor
        · rw [inRange, decide_eq_false (Int.not_le.mpr hlt), Bool.and_false]
        · cases hfurther : coversRanges (largestAck - range.len) ranges e.pktNum with
          | false => rfl
          | true =>
              have := coversRanges_lt hfurther
              omega
      · rw [if_neg hend]
        exact took_bind (q := (coversRanges (largestAck - range.len) ranges ·.pktNum))
          (f := (ackRanges · (largestAck - range.len) ranges)) h.ordered
          (ackRange_took h (fun _ => true) (by omega) fun _ _ => rfl)
          (fun r₁ acked htook => ih htook.sound _) (fun a b => coversRanges_behind largestAck)

section Process

variable {σ : Type} {process : Entry → σ → Except Rv σ}

/-- What the rate sample counts of the entries. -/
def deliveredBytes (ccPktNum : Int) (es : List Entry) : Nat :=
  ((es.filter (ccPktNum ≤ ·.pktNum)).map Entry.pktlen).sum

theorem deliveredBytes_cons (ccPktNum : Int) (e : Entry) (es : List Entry) :
    deliveredBytes ccPktNum (e :: es) = (if ccPktNum ≤ e.pktNum then e.pktlen else 0) + deliveredBytes ccPktNum es := by
  rw [deliveredBytes, deliveredBytes, List.filter_cons]
  by_cases hcc : ccPktNum ≤ e.pktNum
  · simp only [hcc, decide_true, if_true, List.map_cons, List.sum_cons]
  · simp only [hcc, decide_false, Bool.false_eq_true, if_false, Nat.zero_add]

theorem deliveredBytes_reverse (ccPktNum : Int) (es : List Entry) :
    deliveredBytes ccPktNum es.reverse = deliveredBytes ccPktNum es := by
  rw [deliveredBytes, deliveredBytes, List.filter_reverse, List.map_reverse, List.sum_reverse]

/-- The packets of the present congestion state were sent in the order of their numbers, and the
bytes delivered have only grown since. -/
structure Sent (ccPktNum : Int) (rst : Rst) (es : List Entry) : Prop where
  le : ∀ a ∈ es, ∀ b ∈ es, ccPktNum ≤ a.pktNum → a.pktNum ≤ b.pktNum → rst.sent a.pktNum ≤ rst.sent b.pktNum
  delivered : ∀ a ∈ es, ccPktNum ≤ a.pktNum → rst.sent a.pktNum ≤ rst.delivered

theorem processAcked_numAcked {pktDelivered numAcked n : Nat} {rst rst' : Rst} {conn conn' : σ} {es : List Entry}
    (h : processAcked process ccPktNum pktDelivered numAcked rst conn es = .ok (rst', conn', n)) :
    n = numAcked + es.countP (ccPktNum ≤ ·.pktNum) := by
  induction es generalizing pktDelivered numAcked rst conn with
  | nil =>
      cases h
      rfl
  | cons e es ih =>
      rw [processAcked] at h
      cases hprocess : process e conn with
      | error rv =>
          rw [hprocess] at h
          cases h
      | ok conn' =>
          rw [hprocess] at h
          simp only at h
          split_ifs at h with hcc hless
          · rw [ih h, List.countP_cons, decide_eq_true hcc, if_pos rfl, Nat.add_right_comm, Nat.add_assoc]
          · rw [ih h, List.countP_cons, decide_eq_false hcc, if_neg Bool.false_ne_true, Nat.add_zero]

theorem processAcked_spec {rst : Rst} {es : List Entry} (hasc : es.Pairwise fun a b => a.pktNum < b.pktNum)
    (hle : ∀ a ∈ es, ∀ b ∈ es, ccPktNum ≤ a.pktNum → a.pktNum ≤ b.pktNum → rst.sent a.pktNum ≤ rst.sent b.pktNum)
    {pktDelivered : Nat} (hdelivered : ∀ a ∈ es, ccPktNum ≤ a.pktNum → pktDelivered ≤ rst.sent a.pktNum)
    (numAcked : Nat) (conn : σ) :
    Ends (fun stop => ∃ rv, es.foldlM (fun conn e => process e conn) conn = .error rv ∧ stop = .failed rv)
      (fun p => es.foldlM (fun conn e => process e conn) conn = .ok p.2.1 ∧
        p.1 = { rst with delivered := rst.delivered + deliveredBytes ccPktNum es })
      (processAcked process ccPktNum pktDelivered numAcked rst conn es) := by
  induction es generalizing rst pktDelivered numAcked conn with
  | nil => exact ⟨rfl, rfl⟩
  | cons e es ih =>
      obtain ⟨hfirst, htail⟩ := List.pairwise_cons.mp hasc
      have hle' : ∀ a ∈ es, ∀ b ∈ es, ccPktNum ≤ a.pktNum → a.pktNum ≤ b.pktNum →
          rst.sent a.pktNum ≤ rst.sent b.pktNum := by
        intro a ha b hb
        exact hle a (List.mem_cons_of_mem e ha) b (List.mem_cons_of_mem e hb)
      rw [processAcked, List.foldlM_cons]
      cases hprocess : process e conn with
      | error rv => exact ⟨rv, rfl, rfl⟩
      | ok conn' =>
          simp only [bind, Except.bind]
          by_cases hcc : ccPktNum ≤ e.pktNum
          · rw [if_pos hcc, if_neg (Nat.not_lt.mpr (hdelivered e List.mem_cons_self hcc))]
            have hends := @ih (rst.updateRateSample e.pktlen) htail hle' (rst.sent e.pktNum) (fun a ha _ =>
                hle e List.mem_cons_self a (List.mem_cons_of_mem e ha) hcc (Int.le_of_lt (hfirst a ha)))
              (numAcked + 1) conn'
            apply hends.mono
            rintro ⟨rst', conn'', n⟩ ⟨hfold, hrst⟩
            refine ⟨hfold, ?_⟩
            rw [hrst, deliveredBytes_cons, if_pos hcc, Rst.updateRateSample, Nat.add_assoc]
          · rw [if_neg hcc]
            have hends := @ih rst htail hle' pktDelivered
              (fun a ha => hdelivered a (List.mem_cons_of_mem e ha)) numAcked conn'
            apply hends.mono
            rintro ⟨rst', conn'', n⟩ ⟨hfold, hrst⟩
            refine ⟨hfold, ?_⟩
            rw [hrst, deliveredBytes_cons, if_neg hcc, Nat.zero_add]

/-- The buffer and the number of acknowledged packets do not depend on what is processed. -/
theorem recvAckProcess_recvAck {r : Rtb} {rst : Rst} {conn : σ} {fr : AckFrame} {l : Loss} {res : Acked σ}
    (h : recvAckProcess process r rst conn fr l = .ok res) : r.recvAck fr l = .ok (res.rtb, res.numAcked) := by
  rw [recvAckProcess] at h
  rw [recvAck]
  simp only at h ⊢
  by_cases hend : r.ents.dropWhile ((fr.largestAck : Int) < ·.pktNum) = []
  · rw [if_pos hend] at h ⊢
    cases h
    rfl
  · rw [if_neg hend] at h ⊢
    obtain ⟨⟨r₁, acked₁⟩, hrange, h⟩ := bind_ok h
    obtain ⟨⟨r₂, acked₂⟩, hranges, h⟩ := bind_ok h
    obtain ⟨⟨rst', conn', n⟩, hprocess, h⟩ := bind_ok h
    have hn := processAcked_numAcked hprocess
    rw [List.countP_reverse, Nat.zero_add] at hn
    rw [hrange]
    simp only [bind, Except.bind]
    rw [hranges]
    simp only at h ⊢
    rw [← hn]
    by_cases hzero : n = 0
    · rw [if_pos hzero] at h ⊢
      cases h
      rfl
    · rw [if_neg hzero] at h ⊢
      obtain ⟨⟨r₃, lost⟩, hdetect, hok⟩ := bind_ok h
      cases hok
      rw [hdetect]

end Process

end Rtb

end Zngtcp2.RtbTx
