import Zngtcp2.Early.Quiet

namespace Zngtcp2.RtbTx

open Lib.Run
open Pkt (PktType)
open Strm (Stop)

namespace Counters

/-- The other packet number spaces have `k` bytes in flight. -/
def Others (k : Nat) (c : Counters) : Prop :=
  c.bytesInFlight = k + c.ccBytesInFlight

variable {k : Nat} {ccPktNum : Int} {c c' : Counters} {e : Entry} {n : Nat}

theorem Others.onAdd (hk : Others k c) (h : c.onAdd ccPktNum e = .ok c') : Others k c' := by
  rw [Counters.onAdd] at h
  split at h
  · cases h
    change c.bytesInFlight + e.pktlen = k + (c.ccBytesInFlight + e.pktlen)
    rw [show c.bytesInFlight = k + c.ccBytesInFlight from hk, Nat.add_assoc]
  · cases h

theorem Others.takeBytes (hk : Others k c) (h : c.takeBytes ccPktNum e = .ok (c', n)) : Others k c' := by
  rw [Counters.takeBytes] at h
  split at h
  · split at h
    · cases h
    · rename_i hle
      cases h
      have hk : c.bytesInFlight = k + c.ccBytesInFlight := hk
      change c.bytesInFlight - e.pktlen = k + (c.ccBytesInFlight - e.pktlen)
      omega
  · cases h
    exact hk

theorem Others.onRemove (hk : Others k c) (h : c.onRemove ccPktNum e = .ok (c', n)) : Others k c' := by
  rw [Counters.onRemove] at h
  split at h
  · obtain ⟨_, -, h⟩ := bind_ok h
    obtain ⟨_, -, h⟩ := bind_ok h
    cases h
    exact hk
  · obtain ⟨numAckEliciting, -, h⟩ := bind_ok h
    obtain ⟨numRetransmittable, -, h⟩ := bind_ok h
    obtain ⟨numPtoEliciting, -, h⟩ := bind_ok h
    have hk : Others k { c with
        numAckEliciting := numAckEliciting
        numRetransmittable := numRetransmittable
        numPtoEliciting := numPtoEliciting } := hk
    exact hk.takeBytes h

end Counters

theorem Rtb.dropEarlyData_spec {k : Nat} {ccPktNum : Int} {c c' : Counters} {es es' : List Entry} (hk : c.Others k)
    (h : dropEarlyData ccPktNum c es = .ok (c', es')) :
    c'.Others k ∧ es' = es.filter fun e => e.type ≠ .zeroRtt := by
  induction es generalizing c es' with
  | nil =>
      cases h
      exact ⟨hk, rfl⟩
  | cons e es ih =>
      rw [dropEarlyData] at h
      split at h
      · rename_i htype
        obtain ⟨⟨c₁, es₁⟩, hrest, h⟩ := bind_ok h
        cases h
        obtain ⟨hk', rfl⟩ := ih hk hrest
        exact ⟨hk', by simp [htype]⟩
      · rename_i htype
        obtain ⟨⟨c₁, n⟩, hremove, h⟩ := bind_ok h
        obtain ⟨hk', rfl⟩ := ih (hk.onRemove hremove) h
        refine ⟨hk', ?_⟩
        rw [List.filter_cons_of_neg (by simpa using htype)]

/-- An entry with the next packet number comes to the front. -/
theorem State.add_spec {s s' : State} {type : PktType} {ts pktlen : Nat} {sent : SentFlags} {k : Nat} (hs : s.Inv)
    (hcc : s.rtb.ccPktNum ≤ s.lastPktNum + 1) (hk : s.rtb.counters.Others k)
    (h : s.step (.add (s.lastPktNum + 1) type ts pktlen sent) = .ok s') :
    s'.Inv ∧ s'.rtb.ents = .init (s.lastPktNum + 1) type ts pktlen sent :: s.rtb.ents ∧
      s'.rtb.ccPktNum ≤ s'.lastPktNum + 1 ∧ s'.rtb.counters.Others k := by
  have hinv := step_inv s (.add (s.lastPktNum + 1) type ts pktlen sent) hs ⟨Int.lt_succ _, hcc⟩
  rw [h] at hinv
  obtain ⟨rtb, hadd, h⟩ := bind_ok h
  cases h
  have hnew : ∀ a ∈ s.rtb.ents, a.pktNum < s.lastPktNum + 1 := fun a ha => Int.lt_add_one_of_le (hs.used a ha)
  obtain ⟨r, hadd', -, hents⟩ := hs.sound.add hnew hcc type ts pktlen sent
  rw [hadd, Except.ok.injEq] at hadd'
  subst hadd'
  rw [Rtb.add, Rtb.kslInsert_front hnew] at hadd
  obtain ⟨counters, hcount, hadd⟩ := bind_ok hadd
  cases hadd
  exact ⟨hinv, hents, Int.le_add_one hcc, hk.onAdd hcount⟩

end Zngtcp2.RtbTx

namespace Zngtcp2.EarlyData

open Lib.Run Strm StreamTx
open Zngtcp2.Pkt (PktType)

/-- What a step without a MAX_DATA frame leaves as it is. -/
structure Steady (c c' : Conn) : Prop where
  params : c'.params = c.params
  rxWindow : c'.rxWindow = c.rxWindow
  lastMaxDataTs : c'.lastMaxDataTs = c.lastMaxDataTs

theorem Quiet.steady {c c' : Conn} (h : Quiet c c') : Steady c c' :=
  ⟨h.params, h.rxWindow, h.lastMaxDataTs⟩

theorem Steady.trans {c₁ c₂ c₃ : Conn} (h : Steady c₁ c₂) (h' : Steady c₂ c₃) : Steady c₁ c₃ :=
  ⟨h'.params.trans h.params, h'.rxWindow.trans h.rxWindow, h'.lastMaxDataTs.trans h.lastMaxDataTs⟩

/-- The invariant of a connection before its early data is rejected: only entries of 0-RTT packets
have frames, and the other packet number spaces have `k` bytes in flight. -/
structure Inv (k : Nat) (c : Conn) : Prop where
  queued : c.Queued
  rtb : c.rtb.Inv
  ccPktNum : c.rtb.rtb.ccPktNum ≤ c.rtb.lastPktNum + 1
  others : c.rtb.rtb.counters.Others k
  frames : ∀ e ∈ c.rtb.rtb.ents, e.type ≠ .zeroRtt → c.frames e.pktNum = []

theorem new_inv (p : Params) (k : Nat) : Inv k (.new p k) :=
  ⟨by simp [Conn.Queued, Conn.new], RtbTx.State.init_inv 0 k, Int.le_refl 0, rfl,
    by simp [Conn.new, RtbTx.State.init, RtbTx.Rtb.init]⟩

namespace Inv

variable {k : Nat} {c c' : Conn}

theorem quiet (h : Inv k c) (hq : Quiet c c') : Inv k c' := by
  refine ⟨hq.queued h.queued, ?_, ?_, ?_, ?_⟩
  · rw [hq.rtb]
    exact h.rtb
  · rw [hq.rtb]
    exact h.ccPktNum
  · rw [hq.rtb]
    exact h.others
  · rw [hq.rtb, hq.frames]
    exact h.frames

/-- A packet is entered into the retransmission buffer. -/
theorem enter (h : Inv k c) {type : PktType} {ts pktlen : Nat} {sent : RtbTx.SentFlags} {rtb : RtbTx.State}
    {frames : List Frame} (hstep : c.rtb.step (.add (c.rtb.lastPktNum + 1) type ts pktlen sent) = .ok rtb)
    (hframes : type ≠ .zeroRtt → frames = []) :
    Inv k { c with rtb := rtb, frames := Function.update c.frames (c.rtb.lastPktNum + 1) frames } := by
  obtain ⟨hinv, hents, hcc, hothers⟩ := RtbTx.State.add_spec h.rtb h.ccPktNum h.others hstep
  refine ⟨h.queued, hinv, hcc, hothers, fun e he htype => ?_⟩
  change Function.update c.frames (c.rtb.lastPktNum + 1) frames e.pktNum = []
  change e ∈ rtb.rtb.ents at he
  rw [hents] at he
  rcases List.mem_cons.mp he with rfl | he
  · exact (Function.update_self _ _ _).trans (hframes htype)
  · have hused := h.rtb.used e he
    rw [Function.update_of_ne (by omega)]
    exact h.frames e he htype

end Inv

namespace Conn

variable {k : Nat} {c c' : Conn}

theorem queueMaxData_eq {ts smoothedRtt : Nat} (h : ¬c.shouldSendMaxData) : c.queueMaxData ts smoothedRtt = c := by
  rw [queueMaxData, if_neg h]

theorem queueMaxData_ts {ts smoothedRtt : Nat} (h : c.shouldSendMaxData) :
    (c.queueMaxData ts smoothedRtt).lastMaxDataTs = ts := by
  rw [queueMaxData, if_pos h]

theorem queueMaxData_params (ts smoothedRtt : Nat) : (c.queueMaxData ts smoothedRtt).params = c.params := by
  rw [queueMaxData]
  split <;> rfl

theorem queueMaxData_inv (ts smoothedRtt : Nat) (h : Inv k c) : Inv k (c.queueMaxData ts smoothedRtt) := by
  rw [queueMaxData]
  split
  · exact ⟨h.queued, h.rtb, h.ccPktNum, h.others, h.frames⟩
  · exact h

theorem handleSkipPkt_spec {skip : Bool} {ts : Nat} (hrun : c.handleSkipPkt skip ts = .ok c') :
    Steady c c' ∧ (Inv k c → Inv k c') := by
  rw [handleSkipPkt] at hrun
  split at hrun
  · obtain ⟨rtb, hstep, hrun⟩ := bind_ok hrun
    cases hrun
    exact ⟨⟨rfl, rfl, rfl⟩, fun h => h.enter hstep fun _ => rfl⟩
  · cases hrun
    exact ⟨⟨rfl, rfl, rfl⟩, id⟩

end Conn

theorem Pkt.finish_spec {k : Nat} {p : Pkt} {w : Write} {c : Conn} (hrun : p.finish w = .ok c) :
    Steady p.conn c ∧ (Inv k p.conn → Inv k c) := by
  rw [finish] at hrun
  split at hrun
  · cases hrun
    exact ⟨⟨rfl, rfl, rfl⟩, id⟩
  · obtain ⟨rtb, hstep, hrun⟩ := bind_ok hrun
    cases hrun
    exact ⟨⟨rfl, rfl, rfl⟩, fun h => h.enter hstep fun hne => absurd rfl hne⟩

namespace Conn

variable {k : Nat} {c c' : Conn}

theorem writePkt_spec {w : Write} (hrun : c.writePkt w = .ok c') :
    Steady (c.queueMaxData w.ts w.smoothedRtt) c' ∧ (Inv k c → Inv k c') := by
  obtain ⟨c₁, hskip, hrun⟩ := bind_ok hrun
  obtain ⟨p, hstrms, hrun⟩ := bind_ok hrun
  have hbuild := Pkt.build_quiet hstrms w.msgs
  obtain ⟨hsteady₁, hinv₁⟩ := @handleSkipPkt_spec k _ _ _ _ hskip
  obtain ⟨hsteady₂, hinv₂⟩ := @Pkt.finish_spec k _ _ _ hrun
  exact ⟨(hsteady₁.trans hbuild.steady).trans hsteady₂,
    fun h => hinv₂ ((hinv₁ (queueMaxData_inv w.ts w.smoothedRtt h)).quiet hbuild)⟩

/-- The retransmission buffer is emptied; what its frames need goes back into the queues. -/
theorem reclaimOnRetry_spec {es : List RtbTx.Entry} (hrun : c.reclaimOnRetry es = .ok c') (hents : c.rtb.rtb.ents = es)
    (h : c.rtb.Inv) (hq : c.Queued) :
    Steady c c' ∧ c'.rtb.Inv ∧ c'.rtb.rtb.ents = [] ∧ c'.rtb.lastPktNum = c.rtb.lastPktNum ∧ c'.Queued := by
  induction es generalizing c with
  | nil =>
      cases hrun
      have heq : { c.rtb.rtb with ents := [] } = c.rtb.rtb := by rw [← hents]
      refine ⟨⟨rfl, rfl, rfl⟩, ?_, rfl, rfl, hq⟩
      change RtbTx.State.Inv { c.rtb with rtb := { c.rtb.rtb with ents := [] } }
      rw [heq]
      exact h
  | cons e es ih =>
      obtain ⟨⟨counters, n⟩, hremove, hrun⟩ := bind_ok hrun
      have hcounts := h.sound.counts
      rw [hents] at hcounts
      obtain ⟨counters', n', hremove', hcounts'⟩ := hcounts.onRemove
      rw [hremove, Except.ok.injEq, Prod.mk.injEq] at hremove'
      obtain ⟨rfl, rfl⟩ := hremove'
      have hsub : es.Sublist c.rtb.rtb.ents := by
        rw [hents]
        exact List.sublist_cons_self e es
      have hpruned : RtbTx.Rtb.Pruned c.rtb.rtb { c.rtb.rtb with ents := es, counters := counters } :=
        h.sound.pruned hcounts' hsub rfl
      have hset : Steady c (c.setRtb { c.rtb.rtb with ents := es, counters := counters }) := ⟨rfl, rfl, rfl⟩
      have hinv : (c.setRtb { c.rtb.rtb with ents := es, counters := counters }).rtb.Inv := h.of_kept hpruned.toKept rfl
      simp only at hrun
      split at hrun
      · cases hrun
      · split at hrun
        · obtain ⟨hsteady, hrest⟩ := ih hrun rfl hinv hq
          exact ⟨hset.trans hsteady, hrest⟩
        · obtain ⟨⟨c₁, ctl⟩, hreclaim, hrun⟩ := bind_ok hrun
          have hquiet := reclaimFrameOnRetry_quiet hreclaim
          have hrtb : c₁.rtb = (c.setRtb { c.rtb.rtb with ents := es, counters := counters }).rtb := hquiet.rtb
          obtain ⟨hsteady, hrest⟩ := @ih { c₁ with frq := ctl ++ c₁.frq } hrun (by rw [hrtb]; rfl) (hrtb ▸ hinv)
            (hquiet.queued hq)
          have hqueue : Steady c₁ { c₁ with frq := ctl ++ c₁.frq } := ⟨rfl, rfl, rfl⟩
          refine ⟨hset.trans (hquiet.steady.trans (hqueue.trans hsteady)), hrest.1, hrest.2.1, ?_, hrest.2.2.2⟩
          rw [hrest.2.2.1, hrtb]
          rfl

theorem onRetry_spec (hrun : c.onRetry = .ok c') (h : Inv k c) : Steady c c' ∧ Inv 0 c' := by
  obtain ⟨c₁, hreclaim, hrun⟩ := bind_ok hrun
  obtain ⟨hsteady, hinv, hents, hlast, hq⟩ := reclaimOnRetry_spec hreclaim rfl h.rtb h.queued
  cases hrun
  have hreset := RtbTx.State.step_inv c₁.rtb .resetCcState hinv trivial
  refine ⟨⟨hsteady.params, hsteady.rxWindow, hsteady.lastMaxDataTs⟩, hq, hreset, Int.le_refl _, rfl, fun e he => ?_⟩
  change e ∈ c₁.rtb.rtb.ents at he
  rw [hents] at he
  cases he

end Conn

end Zngtcp2.EarlyData
