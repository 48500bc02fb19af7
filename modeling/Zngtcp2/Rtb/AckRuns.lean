import Zngtcp2.Rtb.RecvAck

namespace Zngtcp2.RtbTx

open Lib.Run PktnsRx
open Strm (Stop)

/-- The entry without the mark of a lost packet. -/
def Entry.unmarked (e : Entry) : Entry :=
  { e with lostRetransmitted := false, lostTs := 0 }

namespace Rtb

/-- What detecting losses does to the buffer: entries are marked as lost, and where there are more
than `keep` of them the oldest ones are dropped. -/
structure Detected (keep : Nat) (r r' : Rtb) : Prop where
  ents : ∃ dropped : List Entry, (r'.ents ++ dropped).map Entry.unmarked = r.ents.map Entry.unmarked ∧
    (∀ e ∈ dropped, e.lostRetransmitted = true) ∧ (dropped ≠ [] → r'.counters.numLostPkts = keep)
  largestAcked : r'.largestAckedTxPktNum = r.largestAckedTxPktNum
  ccPktNum : r'.ccPktNum = r.ccPktNum

variable {ccPktNum : Int} {l : Loss} {c c' : Counters} {es es' : List Entry}

theorem onPktLost_unmarked {e e' : Entry} {ts : Nat} (h : c.onPktLost e ts = .ok (c', e')) : e'.unmarked = e.unmarked := by
  rw [Counters.onPktLost] at h
  split_ifs at h
  cases h
  rfl

theorem markLost_unmarked {run : LostRun} {n n' : Nat} (h : markLost ccPktNum l c run n es = .ok (c', es', n')) :
    es'.map Entry.unmarked = es.map Entry.unmarked := by
  induction es generalizing c run n es' with
  | nil =>
      cases h
      rfl
  | cons e es ih =>
      rw [markLost] at h
      simp only at h
      split_ifs at h with hlost hends
      · cases h
        rfl
      · obtain ⟨⟨c₁, es₁, n₁⟩, hrun, hok⟩ := bind_ok h
        cases hok
        rw [List.map_cons, List.map_cons, ih hrun]
      · obtain ⟨⟨c₁, n₁⟩, -, h⟩ := bind_ok h
        obtain ⟨⟨c₂, e₂⟩, hmark, h⟩ := bind_ok h
        obtain ⟨⟨c₃, es₃, n₃⟩, hrun, hok⟩ := bind_ok h
        cases hok
        rw [List.map_cons, List.map_cons, ih hrun, onPktLost_unmarked hmark]

/-- The excessive entries go from the oldest one on, until `keep` are left. -/
theorem dropStale_dropped {keep : Nat} (h : dropStale keep (fun _ => false) c es = .ok (c', es')) :
    ∃ dropped, es = dropped ++ es' ∧ (∀ e ∈ dropped, e.lostRetransmitted = true) ∧ c'.numLostPkts ≤ keep ∧
      ((dropped = [] ∧ c' = c) ∨ c'.numLostPkts = keep) := by
  induction es generalizing c with
  | nil =>
      rw [dropStale] at h
      split_ifs at h with hle
      cases h
      exact ⟨[], rfl, fun e he => absurd he List.not_mem_nil, hle, Or.inl ⟨rfl, rfl⟩⟩
  | cons e es ih =>
      rw [dropStale] at h
      split_ifs at h with hle hlive hfresh
      · cases h
        exact ⟨[], rfl, fun e he => absurd he List.not_mem_nil, hle, Or.inl ⟨rfl, rfl⟩⟩
      · cases hfresh
      · obtain ⟨n, -, hrun⟩ := bind_ok h
        obtain ⟨dropped, heq, hlost, hkeep, hfull⟩ := ih hrun
        refine ⟨e :: dropped, congrArg (e :: ·) heq, List.forall_mem_cons.mpr ⟨by simpa using hlive, hlost⟩, hkeep, ?_⟩
        right
        obtain ⟨-, rfl⟩ | hfull := hfull
        · simp only at hkeep ⊢
          omega
        · exact hfull

theorem detectMark_unmarked {r r' : Rtb} {before : List Entry} {n : Nat} (h : r.detectMark l before es = .ok (r', n)) :
    r'.ents.map Entry.unmarked = (before ++ es).map Entry.unmarked ∧
      r'.largestAckedTxPktNum = r.largestAckedTxPktNum ∧ r'.ccPktNum = r.ccPktNum := by
  cases es with
  | nil =>
      cases h
      exact ⟨by rw [List.append_nil], rfl, rfl⟩
  | cons e es =>
      rw [detectMark] at h
      obtain ⟨⟨c', es', n'⟩, hrun, hok⟩ := bind_ok h
      cases hok
      refine ⟨?_, rfl, rfl⟩
      rw [List.map_append, List.map_append, markLost_unmarked hrun]

theorem detectLostPkt_detected {r r' : Rtb} {n : Nat} (h : r.detectLostPkt l = .ok (r', n)) :
    Detected (r.pktThres l) r r' := by
  rw [Rtb.detectLostPkt] at h
  simp only at h
  obtain ⟨⟨r₁, n₁⟩, hmark, h⟩ := bind_ok h
  obtain ⟨r₂, hremove, hok⟩ := bind_ok h
  cases hok
  obtain ⟨hents, hlargest, hcc⟩ := detectMark_unmarked hmark
  rw [List.append_assoc, splitLost_append, List.takeWhile_append_dropWhile] at hents
  rw [removeExcessiveLostPkt, removeStale] at hremove
  obtain ⟨⟨c', es'⟩, hdrop, hok⟩ := bind_ok hremove
  cases hok
  obtain ⟨dropped, heq, hlost, -, hfull⟩ := dropStale_dropped hdrop
  refine ⟨⟨dropped.reverse, ?_, ?_, ?_⟩, hlargest, hcc⟩
  · simp only
    rw [← List.reverse_append, ← heq, List.reverse_reverse, hents]
  · intro e he
    exact hlost e (List.mem_reverse.mp he)
  · intro hne
    obtain ⟨rfl, -⟩ | hfull := hfull
    · exact absurd rfl hne
    · exact hfull

/-- The entries that the frame acknowledges. -/
def acked (r : Rtb) (fr : AckFrame) : List Entry :=
  r.ents.filter (covers fr ·.pktNum)

section Process

variable {σ : Type} (process : Entry → σ → Except Rv σ)

/-- What a successful call of `ngtcp2_rtb_recv_ack` does: exactly the acknowledged entries go, each
one is processed once, in the order of the packet numbers, and among the others losses are detected. -/
structure RemovesAcked (r : Rtb) (rst : Rst) (conn : σ) (fr : AckFrame) (l : Loss) (res : Acked σ) : Prop where
  unskipped : ∀ e ∈ r.acked fr, e.sent.skip = false
  processed : (r.acked fr).reverse.foldlM (fun conn e => process e conn) conn = .ok res.conn
  numAcked : res.numAcked = (r.acked fr).countP (r.ccPktNum ≤ ·.pktNum)
  rst : res.rst = { rst with delivered := rst.delivered + deliveredBytes r.ccPktNum (r.acked fr) }
  largestAcked : res.rtb.largestAckedTxPktNum = max r.largestAckedTxPktNum fr.largestAck
  removed : ∃ removed : Rtb, Sound removed ∧ removed.ents = r.ents.filter (!covers fr ·.pktNum) ∧
    removed.ccPktNum = r.ccPktNum ∧ (res.numAcked = 0 → res.rtb = removed) ∧
      (res.numAcked ≠ 0 → Detected (removed.pktThres l) removed res.rtb)

/-- A call fails at a skipped packet number, before anything is processed, or as processing does. -/
def AckFails (r : Rtb) (conn : σ) (fr : AckFrame) (stop : Stop) : Prop :=
  SkipFound (r.acked fr) stop ∨ (∀ e ∈ r.acked fr, e.sent.skip = false) ∧
    ∃ rv, (r.acked fr).reverse.foldlM (fun conn e => process e conn) conn = .error rv ∧ stop = .failed rv

theorem ackRange_ranges_took {r : Rtb} (h : Sound r) (fr : AckFrame) :
    Ends (SkipFound (r.acked fr)) (fun p => Took (covers fr ·.pktNum) r p.1 p.2)
      (r.ackRange (·.pktNum ≤ fr.largestAck) fr.largestAck (fr.largestAck - fr.firstAckRange) >>= fun s =>
        ackRanges s.1 (fr.largestAck - fr.firstAckRange) fr.ranges >>= fun s' => .ok (s'.1, s.2 ++ s'.2)) := by
  have hor : (fun e : Entry => covers fr e.pktNum) = fun e =>
      inRange (fr.largestAck - fr.firstAckRange) fr.largestAck e ||
        coversRanges (fr.largestAck - fr.firstAckRange) fr.ranges e.pktNum := rfl
  have hle : (fr.largestAck - fr.firstAckRange : Int) ≤ fr.largestAck := by omega
  have hfirst := ackRange_took h (·.pktNum ≤ fr.largestAck) hle fun e he =>
    decide_eq_true (dropWhile_le h.ordered fr.largestAck e he)
  rw [acked, hor]
  exact took_bind (f := (ackRanges · (fr.largestAck - fr.firstAckRange) fr.ranges)) h.ordered hfirst
    (fun r₁ acked htook => ackRanges_took htook.sound _ _) (fun a b => coversRanges_behind _)

theorem acked_eq_nil {r : Rtb} {fr : AckFrame} (h : r.ents.dropWhile ((fr.largestAck : Int) < ·.pktNum) = []) :
    ∀ e ∈ r.ents, covers fr e.pktNum = false := by
  intro e he
  have hlt : (fr.largestAck : Int) < e.pktNum := of_decide_eq_true (List.dropWhile_eq_nil_iff.mp h e he)
  cases hcovers : covers fr e.pktNum with
  | false => rfl
  | true =>
      have := covers_le hcovers
      omega

theorem add_ccPktNum {r r' : Rtb} {e : Entry} (h : r.add e = .ok r') : r'.ccPktNum = r.ccPktNum := by
  rw [Rtb.add] at h
  cases hinsert : kslInsert e r.ents with
  | none =>
      rw [hinsert] at h
      cases h
  | some es =>
      rw [hinsert] at h
      obtain ⟨c, -, hok⟩ := bind_ok h
      cases hok
      rfl

theorem Sent.kept {r r' : Rtb} {rst : Rst} (h : Sent r.ccPktNum rst r.ents) (hkept : Kept r r') :
    Sent r'.ccPktNum rst r'.ents := by
  rw [hkept.ccPktNum]
  constructor
  · intro a ha b hb
    obtain ⟨a₀, ha₀, heqa⟩ := hkept.pktNums a ha
    obtain ⟨b₀, hb₀, heqb⟩ := hkept.pktNums b hb
    rw [← heqa, ← heqb]
    exact h.le a₀ ha₀ b₀ hb₀
  · intro a ha
    obtain ⟨a₀, ha₀, heqa⟩ := hkept.pktNums a ha
    rw [← heqa]
    exact h.delivered a₀ ha₀

theorem Sent.grow {ccPktNum : Int} {rst : Rst} {es : List Entry} (h : Sent ccPktNum rst es) (bytes : Nat) :
    Sent ccPktNum { rst with delivered := rst.delivered + bytes } es :=
  ⟨h.le, fun a ha hcc => Nat.le_add_right_of_le (h.delivered a ha hcc)⟩

theorem Sent.onPktSent {ccPktNum pktNum : Int} {rst : Rst} {e : Entry} {es : List Entry} (h : Sent ccPktNum rst es)
    (he : e.pktNum = pktNum) (hnew : ∀ a ∈ es, a.pktNum < pktNum) : Sent ccPktNum (rst.onPktSent pktNum) (e :: es) := by
  subst he
  have hother : ∀ a ∈ es, (rst.onPktSent e.pktNum).sent a.pktNum = rst.sent a.pktNum := fun a ha =>
    rst.onPktSent_of_ne (Int.ne_of_lt (hnew a ha))
  constructor
  · refine List.forall_mem_cons.mpr ⟨List.forall_mem_cons.mpr ⟨fun _ _ => Nat.le_refl _, ?_⟩, ?_⟩
    · intro b hb _ hle
      exact absurd (hnew b hb) (Int.not_lt.mpr hle)
    · intro a ha
      rw [hother a ha]
      refine List.forall_mem_cons.mpr ⟨?_, ?_⟩
      · intro hcc _
        rw [rst.onPktSent_self]
        exact h.delivered a ha hcc
      · intro b hb
        rw [hother b hb]
        exact h.le a ha b hb
  · refine List.forall_mem_cons.mpr ⟨?_, ?_⟩
    · intro _
      rw [rst.onPktSent_self]
      exact Nat.le_refl _
    · intro a ha
      rw [hother a ha]
      exact h.delivered a ha

/-- The packets sent before the congestion state was reset do not count. -/
theorem Sent.none {ccPktNum : Int} {es : List Entry} (rst : Rst) (h : ∀ a ∈ es, a.pktNum < ccPktNum) :
    Sent ccPktNum rst es := by
  constructor
  · intro a ha b _ hcc
    exact absurd hcc (Int.not_le.mpr (h a ha))
  · intro a ha hcc
    exact absurd hcc (Int.not_le.mpr (h a ha))

theorem Sent.filter {rst : Rst} {es : List Entry} {ccPktNum : Int} (h : Sent ccPktNum rst es) (p : Entry → Bool) :
    Sent ccPktNum rst (es.filter p) :=
  ⟨fun a ha b hb => h.le a (List.mem_filter.mp ha).1 b (List.mem_filter.mp hb).1,
    fun a ha => h.delivered a (List.mem_filter.mp ha).1⟩

/-- The entries taken out are processed without a failing assertion. -/
theorem processAcked_reverse {r : Rtb} (hordered : Ordered r.ents) {rst : Rst} (hsent : Sent r.ccPktNum rst r.ents)
    (fr : AckFrame) (conn : σ) :
    Ends (fun stop => ∃ rv, (r.acked fr).reverse.foldlM (fun conn e => process e conn) conn = .error rv ∧
        stop = .failed rv)
      (fun p => (r.acked fr).reverse.foldlM (fun conn e => process e conn) conn = .ok p.2.1 ∧
        p.1 = { rst with delivered := rst.delivered + deliveredBytes r.ccPktNum (r.acked fr) })
      (processAcked process r.ccPktNum 0 0 rst conn (r.acked fr).reverse) := by
  have hacked := hsent.filter (covers fr ·.pktNum)
  have hdesc := (hordered.sublist (List.filter_sublist (p := (covers fr ·.pktNum)))).desc
  have hends := @processAcked_spec r.ccPktNum _ process rst _ (List.pairwise_reverse.mpr hdesc)
    (fun a ha b hb => hacked.le a (List.mem_reverse.mp ha) b (List.mem_reverse.mp hb))
    0 (fun a _ _ => Nat.zero_le (rst.sent a.pktNum)) 0 conn
  rw [deliveredBytes_reverse] at hends
  exact hends

theorem recvAckProcess_spec {r : Rtb} (h : Sound r) {rst : Rst} (hsent : Sent r.ccPktNum rst r.ents) (conn : σ)
    (fr : AckFrame) (l : Loss) :
    Ends (AckFails process r conn fr) (RemovesAcked process r rst conn fr l)
      (recvAckProcess process r rst conn fr l) := by
  rw [recvAckProcess]
  simp only
  have h₀ : Sound { r with largestAckedTxPktNum := max r.largestAckedTxPktNum fr.largestAck } := ⟨h.counts, h.ordered⟩
  have htook := ackRange_ranges_took h₀ fr
  have hprocess := processAcked_reverse process h.ordered hsent fr conn
  by_cases hend : r.ents.dropWhile ((fr.largestAck : Int) < ·.pktNum) = []
  · rw [if_pos hend]
    have hnone := Took.none h₀ (acked_eq_nil hend)
    have hnil : r.acked fr = [] := hnone.acked.symm
    refine ⟨?_, ?_, ?_, ?_, rfl, _, h₀, hnone.ents, rfl, fun _ => rfl, fun hne => absurd rfl hne⟩
    · rw [hnil]
      exact fun e he => absurd he List.not_mem_nil
    · rw [hnil]
      rfl
    · rw [hnil]
      rfl
    · rw [hnil]
      rfl
  · rw [if_neg hend]
    cases hrange : ackRange { r with largestAckedTxPktNum := max r.largestAckedTxPktNum fr.largestAck }
        (·.pktNum ≤ fr.largestAck) fr.largestAck (fr.largestAck - fr.firstAckRange) with
    | error stop =>
        rw [hrange] at htook
        exact Or.inl htook
    | ok p =>
        obtain ⟨r₁, acked₁⟩ := p
        rw [hrange] at htook
        simp only [bind, Except.bind] at htook ⊢
        cases hranges : ackRanges r₁ (fr.largestAck - fr.firstAckRange) fr.ranges with
        | error stop =>
            rw [hranges] at htook
            exact Or.inl htook
        | ok p =>
            obtain ⟨r₂, acked₂⟩ := p
            rw [hranges] at htook
            have hacked : acked₁ ++ acked₂ = r.acked fr := htook.acked
            have hcc : r₂.ccPktNum = r.ccPktNum := htook.ccPktNum
            have hunskipped : ∀ e ∈ r.acked fr, e.sent.skip = false := by
              intro e he
              obtain ⟨hmem, hcovers⟩ := List.mem_filter.mp he
              exact htook.unskipped e hmem hcovers
            simp only
            rw [hacked, hcc]
            cases hrun : processAcked process r.ccPktNum 0 0 rst conn (r.acked fr).reverse with
            | error stop =>
                rw [hrun] at hprocess
                exact Or.inr ⟨hunskipped, hprocess⟩
            | ok p =>
                obtain ⟨rst', conn', n⟩ := p
                rw [hrun] at hprocess
                obtain ⟨hfold, hrst⟩ := hprocess
                have hn := processAcked_numAcked hrun
                rw [List.countP_reverse, Nat.zero_add] at hn
                simp only
                by_cases hzero : n = 0
                · rw [if_pos hzero]
                  exact ⟨hunskipped, hfold, hzero.symm.trans hn, hrst, htook.largestAcked, r₂, htook.sound, htook.ents,
                    hcc, fun _ => rfl, fun hne => absurd rfl hne⟩
                · rw [if_neg hzero]
                  obtain ⟨r₃, lost, hdetect, -⟩ := htook.sound.detectLostPkt l
                  have hdetected := detectLostPkt_detected hdetect
                  rw [hdetect]
                  exact ⟨hunskipped, hfold, hn, hrst, hdetected.largestAcked.trans htook.largestAcked, r₂, htook.sound,
                    htook.ents, hcc, fun heq => absurd heq hzero, fun _ => hdetected⟩

end Process

/-- The loop of `ngtcp2_rtb_reclaim_on_retry`; what it queues is no part of the buffer. -/
def retryLoop (ccPktNum : Int) : Counters → List Entry → Except Stop Counters
  | c, [] => .ok c
  | c, e :: es => do
      let (c, _) ← c.onRemove ccPktNum e
      if e.lostRetransmitted ∨ c.numLostPkts ≠ 0 ∨ c.numLostIgnorePkts ≠ 0 ∨ e.sent.pmtudProbe then
        .error (.fault .assertion)
      else retryLoop ccPktNum c es

/-- `ngtcp2_rtb_reclaim_on_retry` -/
def reclaimOnRetry (r : Rtb) : Except Stop Rtb := do
  let c ← retryLoop r.ccPktNum r.counters r.ents
  .ok { r with ents := [], counters := c }

theorem retryLoop_counts (h : Counts ccPktNum c es) (hrun : retryLoop ccPktNum c es = .ok c') : Counts ccPktNum c' [] := by
  induction es generalizing c with
  | nil =>
      cases hrun
      exact h
  | cons e es ih =>
      obtain ⟨c₁, n, hremove, hc₁⟩ := h.onRemove
      rw [retryLoop, hremove] at hrun
      simp only [bind, Except.bind] at hrun
      split_ifs at hrun
      exact ih hc₁ hrun

theorem reclaimOnRetry_sound {r r' : Rtb} (h : Sound r) (hrun : r.reclaimOnRetry = .ok r') :
    Sound r' ∧ r'.ents = [] := by
  obtain ⟨c', hloop, hok⟩ := bind_ok hrun
  cases hok
  exact ⟨⟨retryLoop_counts h.counts hloop, .nil, .nil, fun e he => absurd he List.not_mem_nil⟩, rfl⟩

end Rtb

/-- The buffer, and what acknowledgements work on besides. -/
structure Tracked (σ : Type) where
  base : State
  rst : Rst
  conn : σ

inductive AckOp (σ : Type)
  | rtb (op : Op)
  /-- so many bytes are acknowledged in the other packet number spaces -/
  | delivered (bytes : Nat)
  /-- a Retry packet is received; the congestion state of the Initial space is not reset -/
  | retry (initial : Bool)
  /-- something else happens to the connection -/
  | conn (conn : σ)

namespace Tracked

variable {σ : Type} (process : Entry → σ → Except Rv σ)

def init (ccPktNum : Int) (bytesInFlight : Nat) (conn : σ) : Tracked σ :=
  ⟨.init ccPktNum bytesInFlight, .init, conn⟩

def step (s : Tracked σ) : AckOp σ → Except Stop (Tracked σ)
  | .rtb (.recvAck fr loss) => do
      let res ← recvAckProcess process s.base.rtb s.rst s.conn fr loss
      .ok ⟨{ s.base with rtb := res.rtb }, res.rst, res.conn⟩
  | .rtb (.add pktNum type ts pktlen sent) => do
      let base ← s.base.step (.add pktNum type ts pktlen sent)
      .ok { s with base := base, rst := s.rst.onPktSent pktNum }
  | .rtb .resetCcState => do
      let base ← s.base.step .resetCcState
      .ok { s with base := base, rst := s.rst.reset }
  | .rtb op => do
      let base ← s.base.step op
      .ok { s with base := base }
  | .delivered bytes => .ok { s with rst := s.rst.updateRateSample bytes }
  | .retry initial => do
      let rtb ← s.base.rtb.reclaimOnRetry
      let rtb := if initial then { rtb with counters := { rtb.counters with bytesInFlight := 0 } }
        else rtb.resetCcState (s.base.lastPktNum + 1)
      .ok { s with base := { s.base with rtb := rtb }, rst := s.rst.reset }
  | .conn conn => .ok { s with conn := conn }

def Allowed (s : Tracked σ) : AckOp σ → Prop
  | .rtb op => s.base.Allowed op
  | _ => True

instance decidableAllowed (s : Tracked σ) (op : AckOp σ) : Decidable (s.Allowed op) :=
  match op with
  | .rtb op => inferInstanceAs (Decidable (s.base.Allowed op))
  | .delivered _ | .retry _ | .conn _ => .isTrue trivial

structure Inv (s : Tracked σ) : Prop where
  base : s.base.Inv
  sent : Rtb.Sent s.base.rtb.ccPktNum s.rst s.base.rtb.ents

variable {s s' : Tracked σ}

theorem Inv.of_removes (h : Inv s) {op : Op} {base : State} (hstep : s.base.step op = .ok base)
    (hop : State.Removes op) : Inv { s with base := base } := by
  have hends := h.base.step_kept hop
  rw [hstep] at hends
  exact ⟨h.base.of_kept hends.1 hends.2, h.sent.kept hends.1⟩

theorem Inv.recvAck (h : Inv s) {fr : AckFrame} {loss : Loss} {res : Acked σ}
    (hrun : recvAckProcess process s.base.rtb s.rst s.conn fr loss = .ok res) :
    Inv ⟨{ s.base with rtb := res.rtb }, res.rst, res.conn⟩ := by
  have hends := h.base.sound.recvAck fr loss
  rw [Rtb.recvAckProcess_recvAck hrun] at hends
  have hspec := Rtb.recvAckProcess_spec process h.base.sound h.sent s.conn fr loss
  rw [hrun] at hspec
  refine ⟨h.base.of_kept hends rfl, ?_⟩
  rw [hspec.rst]
  exact (h.sent.kept hends).grow _

theorem Inv.add (h : Inv s) {pktNum : Int} (hlt : s.base.lastPktNum < pktNum) (hcc : s.base.rtb.ccPktNum ≤ pktNum)
    {type : Pkt.PktType} {ts pktlen : Nat} {sent : SentFlags} {base : State}
    (hstep : s.base.step (.add pktNum type ts pktlen sent) = .ok base) :
    Inv { s with base := base, rst := s.rst.onPktSent pktNum } := by
  have hnew : ∀ a ∈ s.base.rtb.ents, a.pktNum < pktNum := fun a ha => Int.lt_of_le_of_lt (h.base.used a ha) hlt
  have hbase := State.step_inv s.base (.add pktNum type ts pktlen sent) h.base ⟨hlt, hcc⟩
  rw [hstep] at hbase
  obtain ⟨r, hadd, hsound, hents⟩ := h.base.sound.add hnew hcc type ts pktlen sent
  rw [State.step, hadd] at hstep
  cases hstep
  refine ⟨hbase, ?_⟩
  change Rtb.Sent r.ccPktNum (s.rst.onPktSent pktNum) r.ents
  rw [hents, Rtb.add_ccPktNum hadd]
  exact h.sent.onPktSent rfl hnew

theorem step_inv (op : AckOp σ) (h : Inv s) (ha : s.Allowed op) (hstep : s.step process op = .ok s') : Inv s' := by
  cases op with
  | delivered bytes =>
      cases hstep
      exact ⟨h.base, h.sent.grow bytes⟩
  | conn conn =>
      cases hstep
      exact ⟨h.base, h.sent⟩
  | retry initial =>
      obtain ⟨rtb, hretry, hok⟩ := bind_ok hstep
      cases hok
      obtain ⟨hsound, hents⟩ := Rtb.reclaimOnRetry_sound h.base.sound hretry
      have hnone : ∀ P : Entry → Prop, ∀ e ∈ rtb.ents, P e := by
        rw [hents]
        exact fun P e he => absurd he List.not_mem_nil
      cases initial with
      | true =>
          have hc := hsound.counts
          have hflight : rtb.counters.ccBytesInFlight = 0 := by
            rw [hc.flight, hents]
            rfl
          exact ⟨⟨⟨⟨hc.ackEliciting, hc.retransmittable, hc.ptoEliciting, hc.lost, hc.ignored, hc.flight,
            Nat.le_of_eq hflight⟩, hsound.ordered⟩, hnone _⟩, Rtb.Sent.none _ (hnone _)⟩
      | false => exact ⟨⟨hsound.resetCcState (hnone _), hnone _⟩, Rtb.Sent.none _ (hnone _)⟩
  | rtb op =>
      cases op with
      | add pktNum type ts pktlen sent =>
          obtain ⟨base, hbase, hok⟩ := bind_ok hstep
          cases hok
          exact h.add ha.1 ha.2 hbase
      | recvAck fr loss =>
          obtain ⟨res, hrun, hok⟩ := bind_ok hstep
          cases hok
          exact h.recvAck process hrun
      | detectLostPkt loss =>
          obtain ⟨base, hbase, hok⟩ := bind_ok hstep
          cases hok
          exact h.of_removes hbase trivial
      | reclaimOnPto reclaimed numPkts =>
          obtain ⟨base, hbase, hok⟩ := bind_ok hstep
          cases hok
          exact h.of_removes hbase trivial
      | removeExcessiveLostPkt n =>
          obtain ⟨base, hbase, hok⟩ := bind_ok hstep
          cases hok
          exact h.of_removes hbase trivial
      | removeExpiredLostPkt timeout ts =>
          obtain ⟨base, hbase, hok⟩ := bind_ok hstep
          cases hok
          exact h.of_removes hbase trivial
      | removeEarlyData =>
          obtain ⟨base, hbase, hok⟩ := bind_ok hstep
          cases hok
          exact h.of_removes hbase trivial
      | resetCcState =>
          cases hstep
          refine ⟨⟨h.base.sound.resetCcState fun a ha => Int.lt_add_one_of_le (h.base.used a ha), h.base.used⟩, ?_⟩
          apply Rtb.Sent.none
          intro a ha
          exact Int.lt_add_one_of_le (h.base.used a ha)
      | others bytes =>
          cases hstep
          have hbase := State.step_inv s.base (.others bytes) h.base trivial
          exact ⟨hbase, h.sent⟩

theorem init_inv (ccPktNum : Int) (bytesInFlight : Nat) (conn : σ) : Inv (init ccPktNum bytesInFlight conn) :=
  ⟨State.init_inv ccPktNum bytesInFlight, Rtb.Sent.none _ fun _ he => absurd he List.not_mem_nil⟩

theorem run_inv {ccPktNum : Int} {bytesInFlight : Nat} {conn : σ} {ops : List (AckOp σ)}
    (h : Guarded (step process) Allowed (init ccPktNum bytesInFlight conn) ops)
    (hrun : run (step process) (init ccPktNum bytesInFlight conn) ops = .ok s) : Inv s :=
  run_preserves (fun _ op _ hs ha hstep => step_inv process op hs ha hstep) (init_inv _ _ _) h hrun

/-- In every state reached a valid ACK frame takes out exactly the entries that it acknowledges, each
of which is processed once, with increasing packet numbers and without a failing assertion. -/
theorem run_recvAck {ccPktNum : Int} {bytesInFlight : Nat} {conn : σ} {ops : List (AckOp σ)}
    (h : Guarded (step process) Allowed (init ccPktNum bytesInFlight conn) ops)
    (hrun : run (step process) (init ccPktNum bytesInFlight conn) ops = .ok s) {fr : AckFrame} {minPktNum : Int}
    (hvalid : validateAck fr minPktNum = .ok ()) (l : Loss) :
    (∀ b ∈ (fr.largestAck - fr.firstAckRange : Int) :: rangeEnds (fr.largestAck - fr.firstAckRange) fr.ranges,
      minPktNum ≤ b ∧ 0 ≤ b ∧ b ≤ fr.largestAck) ∧
    ((s.base.rtb.acked fr).reverse.Pairwise fun a b => a.pktNum < b.pktNum) ∧
    Ends (Rtb.AckFails process s.base.rtb s.conn fr) (Rtb.RemovesAcked process s.base.rtb s.rst s.conn fr l)
      (recvAckProcess process s.base.rtb s.rst s.conn fr l) := by
  have hinv := run_inv process h hrun
  have hacked := hinv.base.sound.ordered.sublist (List.filter_sublist (p := (covers fr ·.pktNum)))
  exact ⟨validateAck_ends hvalid, List.pairwise_reverse.mpr hacked.desc,
    Rtb.recvAckProcess_spec process hinv.base.sound hinv.sent s.conn fr l⟩

def record (e : Entry) (conn : List Int) : Except Rv (List Int) :=
  .ok (conn ++ [e.pktNum])

def sendPkt (pktNum : Nat) : AckOp (List Int) :=
  .rtb (.add pktNum .oneRtt pktNum 100 ⟨true, true, true, false, false⟩)

/-- The packet 1 is sent after other packets were delivered, and the packets 2 and 3 on a new path. -/
theorem run_recvAck_reset :
    ∃ s, run (step record) (init 0 0 []) [sendPkt 0, .delivered 500, sendPkt 1, .rtb .resetCcState, sendPkt 2, sendPkt 3] =
        .ok s ∧
      (∀ b ∈ (3 - 1 : Int) :: rangeEnds (3 - 1) [⟨0, 0⟩], 0 ≤ b ∧ 0 ≤ b ∧ b ≤ 3) ∧
      ((s.base.rtb.acked ⟨none, 3, 1, 0, 0, [⟨0, 0⟩]⟩).reverse.Pairwise fun a b => a.pktNum < b.pktNum) ∧
      Ends (Rtb.AckFails record s.base.rtb s.conn ⟨none, 3, 1, 0, 0, [⟨0, 0⟩]⟩)
        (Rtb.RemovesAcked record s.base.rtb s.rst s.conn ⟨none, 3, 1, 0, 0, [⟨0, 0⟩]⟩
          ⟨10, 1000, 1000, 500, 0, 0, 1200, true⟩)
        (recvAckProcess record s.base.rtb s.rst s.conn ⟨none, 3, 1, 0, 0, [⟨0, 0⟩]⟩
          ⟨10, 1000, 1000, 500, 0, 0, 1200, true⟩) := by
  have hok : (run (step record) (init 0 0 [])
      [sendPkt 0, .delivered 500, sendPkt 1, .rtb .resetCcState, sendPkt 2, sendPkt 3]).isOk = true := by
    decide
  cases hrun : run (step record) (init 0 0 [])
      [sendPkt 0, .delivered 500, sendPkt 1, .rtb .resetCcState, sendPkt 2, sendPkt 3] with
  | error stop =>
      rw [hrun] at hok
      cases hok
  | ok s =>
      have hvalid : validateAck ⟨none, 3, 1, 0, 0, [⟨0, 0⟩]⟩ 0 = .ok () := by decide
      exact ⟨s, rfl, run_recvAck record (by decide) hrun hvalid _⟩

/-- The acknowledgement of the packet 6 also takes out the packet 0, as the oldest one of four lost packets. -/
theorem recvAck_drops_unacked :
    Guarded (step record) Allowed (init 0 0 []) ((List.range 7).map sendPkt) ∧
    validateAck ⟨none, 6, 0, 0, 0, []⟩ 0 = .ok () ∧
    ((run (step record) (init 0 0 []) ((List.range 7).map sendPkt)).bind fun s =>
      (recvAckProcess record s.base.rtb s.rst s.conn ⟨none, 6, 0, 0, 0, []⟩
        ⟨10, 1000, 1000, 500, 0, 0, 1200, true⟩).map fun res =>
      (s.base.rtb.ents.map Entry.pktNum, (s.base.rtb.acked ⟨none, 6, 0, 0, 0, []⟩).map Entry.pktNum,
        res.rtb.ents.map Entry.pktNum, res.conn, res.numAcked)) =
      .ok ([6, 5, 4, 3, 2, 1, 0], [6], [5, 4, 3, 2, 1], [6], 1) := by
  decide +kernel

end Tracked

end Zngtcp2.RtbTx
