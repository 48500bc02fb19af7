import Zngtcp2.Rtb.Persistent

namespace Zngtcp2.RtbTx

open Lib.Run PktnsRx
open Strm (Stop)
open Pkt (PktType)

/-- A packet that was really sent. -/
structure SentPkt where
  pktNum : Int
  ts : Nat
  ackEliciting : Bool
  deriving DecidableEq

/-- What is known when persistent congestion is declared. -/
structure Declared where
  lost : List Int
  acks : List AckFrame
  handshakeConfirmedTs : Nat
  firstRttSampleTs : Nat
  congestionPeriod : Nat

/-- The application's packet number space, and the times that limit persistent congestion. No function reads the
packets sent, the frames received and what was declared. -/
structure AppSpace where
  base : State
  now : Nat
  handshakeConfirmedTs : Nat
  firstRttSampleTs : Nat
  sent : List SentPkt
  acks : List AckFrame
  declared : List Declared

/-- What happens at a time: to the packet number space, or to the connection. -/
inductive Event
  | writePkt (type : PktType) (pktlen : Nat) (sent : SentFlags)
  /-- a packet that is not kept in the buffer -/
  | writeUntracked
  | handleSkipPkt
  | recvAck (fr : AckFrame) (sampled : Bool) (l : Loss)
  | onLossDetectionTimer (l : Loss)
  | upkeep (op : Op)
  | resetCongestionState
  | recvRetry
  | handshakeConfirmed
  /-- an RTT sample of another packet number space -/
  | updateRtt

/-- There are two packets, both sent after the handshake was confirmed and after the first RTT sample, both lost and a
congestion period apart, and none from the one to the other is acknowledged. -/
def Declared.Justified (sent : List SentPkt) (d : Declared) : Prop :=
  ∃ a ∈ sent, ∃ b ∈ sent, a.ackEliciting = true ∧ b.ackEliciting = true ∧ a.pktNum ∈ d.lost ∧ b.pktNum ∈ d.lost ∧
    d.handshakeConfirmedTs ≤ a.ts ∧ d.handshakeConfirmedTs ≤ b.ts ∧ d.firstRttSampleTs ≤ a.ts ∧ d.firstRttSampleTs ≤ b.ts ∧
    b.ts + d.congestionPeriod ≤ a.ts ∧ b.pktNum < a.pktNum ∧
    ∀ m, b.pktNum ≤ m → m ≤ a.pktNum → ∀ fr ∈ d.acks, covers fr m = false

theorem Declared.Justified.sends {sent : List SentPkt} {d : Declared} (h : d.Justified sent) (pkt : SentPkt) :
    d.Justified (pkt :: sent) := by
  obtain ⟨a, ha, b, hb, hrest⟩ := h
  exact ⟨a, List.mem_cons_of_mem pkt ha, b, List.mem_cons_of_mem pkt hb, hrest⟩

namespace AppSpace

def init (bytesInFlight : Nat) : AppSpace where
  base := .init 0 bytesInFlight
  now := 0
  handshakeConfirmedTs := uint64Max
  firstRttSampleTs := uint64Max
  sent := []
  acks := []
  declared := []

variable (s : AppSpace)

/-- What loss detection reads now, with the round-trip times of `l`. -/
def loss (l : Loss) : Loss :=
  { l with startTs := max s.handshakeConfirmedTs s.firstRttSampleTs, application := true, ts := s.now }

def withRtb (rtb : Rtb) : AppSpace :=
  { s with base := { s.base with rtb := rtb } }

/-- `ngtcp2_conn_update_rtt` -/
def updateRtt : AppSpace :=
  if s.firstRttSampleTs = uint64Max then { s with firstRttSampleTs := s.now } else s

/-- `rtb_detect_lost_pkt` -/
def detectLostPkt (l : Loss) : Except Stop AppSpace := do
  let r := s.base.rtb
  let (marked, bytesLost) ← r.detectMark (s.loss l) (r.detected (s.loss l)).1 (r.detected (s.loss l)).2
  let rtb ← marked.removeExcessiveLostPkt (r.pktThres (s.loss l))
  if r.onPersistentCongestion (s.loss l) bytesLost then
    .ok { s.withRtb rtb with
      firstRttSampleTs := uint64Max
      declared := ⟨(marked.ents.filter (·.lostRetransmitted)).map Entry.pktNum, s.acks, s.handshakeConfirmedTs,
        s.firstRttSampleTs, (s.loss l).congestionPeriod⟩ :: s.declared }
  else .ok (s.withRtb rtb)

/-- `conn_recv_ack` up to the losses. -/
def takeAcked (fr : AckFrame) (sampled : Bool) : Except Stop (AppSpace × Nat) :=
  if s.base.lastPktNum < fr.largestAck then .error (.failed .proto)
  else do
    let (rtb, numAcked) ← s.base.rtb.takeAcked fr
    let s := { s.withRtb rtb with acks := fr :: s.acks }
    .ok (if sampled then s.updateRtt else s, numAcked)

def event : Event → Except Stop AppSpace
  | .writePkt type pktlen sent => do
      let pktNum := s.base.lastPktNum + 1
      let base ← s.base.step (.add pktNum type s.now pktlen { sent with skip := false })
      .ok { s with base := base, sent := ⟨pktNum, s.now, sent.ackEliciting⟩ :: s.sent }
  | .writeUntracked => .ok { s with base := { s.base with lastPktNum := s.base.lastPktNum + 1 } }
  | .handleSkipPkt => do
      let base ← s.base.step (.add (s.base.lastPktNum + 1) .oneRtt s.now 0 ⟨false, false, false, false, true⟩)
      .ok { s with base := base }
  | .recvAck fr sampled l => do
      let (s, numAcked) ← s.takeAcked fr sampled
      if numAcked = 0 then .ok s else s.detectLostPkt l
  | .onLossDetectionTimer l => s.detectLostPkt l
  | .upkeep op => do
      let base ← s.base.step op
      .ok { s with base := base }
  | .resetCongestionState =>
      .ok { s.withRtb (s.base.rtb.resetCcState (s.base.lastPktNum + 1)) with firstRttSampleTs := uint64Max }
  | .recvRetry => do
      let rtb ← s.base.rtb.reclaimOnRetry
      .ok { s.withRtb (rtb.resetCcState (s.base.lastPktNum + 1)) with firstRttSampleTs := uint64Max }
  | .handshakeConfirmed => .ok { s with handshakeConfirmedTs := s.now }
  | .updateRtt => .ok s.updateRtt

def step (s : AppSpace) (i : Nat × Event) : Except Stop AppSpace :=
  { s with now := i.1 }.event i.2

/-- What is left to do adds no entry and detects no loss. -/
def upkeeps : Event → Bool
  | .upkeep (.add ..) | .upkeep (.recvAck ..) | .upkeep (.detectLostPkt _) | .upkeep .resetCcState => false
  | _ => true

/-- The clock does not go back. -/
def Allowed (s : AppSpace) (i : Nat × Event) : Prop :=
  s.now ≤ i.1 ∧ i.1 < uint64Max ∧ upkeeps i.2 = true

instance decidableAllowed (s : AppSpace) (i : Nat × Event) : Decidable (s.Allowed i) :=
  inferInstanceAs (Decidable (_ ∧ _ ∧ _))

/-- Where losses are detected, the ends of the window are those of packets that count. -/
def Measured (s : AppSpace) : Event → Prop
  | .onLossDetectionTimer l => s.base.rtb.Measured (s.loss l)
  | .recvAck fr sampled l =>
      match s.takeAcked fr sampled with
      | .ok (s, numAcked) => numAcked = 0 ∨ s.base.rtb.Measured (s.loss l)
      | .error _ => True
  | _ => True

instance decidableMeasured (s : AppSpace) (ev : Event) : Decidable (s.Measured ev) :=
  match ev with
  | .onLossDetectionTimer l => inferInstanceAs (Decidable (s.base.rtb.Measured (s.loss l)))
  | .recvAck fr sampled l =>
      match hacked : s.takeAcked fr sampled with
      | .ok (s, numAcked) =>
          decidable_of_iff (numAcked = 0 ∨ s.base.rtb.Measured (s.loss l)) (by rw [Measured, hacked])
      | .error _ => .isTrue (by rw [Measured, hacked]; trivial)
  | .writePkt .. | .writeUntracked | .handleSkipPkt | .upkeep _ | .resetCongestionState | .recvRetry | .handshakeConfirmed
  | .updateRtt => .isTrue trivial

/-- What the entries have from the packets sent and from the frames received. -/
structure Tracks (now : Nat) (sent : List SentPkt) (acks : List AckFrame) (es : List Entry) : Prop where
  pktNum : ∀ e ∈ es, 0 ≤ e.pktNum
  ts : ∀ e ∈ es, e.ts ≤ now
  desc : es.Pairwise fun a b => b.ts ≤ a.ts
  sent : ∀ e ∈ es, e.sent.skip = false → ⟨e.pktNum, e.ts, e.sent.ackEliciting⟩ ∈ sent
  unacked : ∀ e ∈ es, ∀ fr ∈ acks, covers fr e.pktNum = false

structure Inv (s : AppSpace) : Prop where
  base : s.base.Inv
  last : -1 ≤ s.base.lastPktNum
  ccPktNum : s.base.rtb.ccPktNum ≤ s.base.lastPktNum + 1
  now : s.now < uint64Max
  tracks : Tracks s.now s.sent s.acks s.base.rtb.ents
  acks : ∀ fr ∈ s.acks, fr.largestAck ≤ s.base.lastPktNum
  declared : ∀ d ∈ s.declared, d.Justified s.sent

section Tracks

variable {now : Nat} {sent : List SentPkt} {acks : List AckFrame} {es es' : List Entry}

theorem Tracks.nil (now : Nat) (sent : List SentPkt) (acks : List AckFrame) : Tracks now sent acks [] :=
  ⟨List.forall_mem_nil _, List.forall_mem_nil _, .nil, List.forall_mem_nil _, List.forall_mem_nil _⟩

theorem Tracks.descends (h : Tracks now sent acks es) (hsub : (es'.map Rtb.origin).Sublist (es.map Rtb.origin)) :
    Tracks now sent acks es' := by
  have hmem : ∀ e' ∈ es', ∃ e ∈ es, Rtb.origin e = Rtb.origin e' := fun e' he =>
    List.mem_map.mp (hsub.subset (List.mem_map_of_mem he))
  simp only [Rtb.origin, Prod.mk.injEq] at hmem
  refine ⟨?_, ?_, ?_, ?_, ?_⟩
  · intro e' he
    obtain ⟨e, he, hnum, -⟩ := hmem e' he
    exact hnum ▸ h.pktNum e he
  · intro e' he
    obtain ⟨e, he, -, hts, -⟩ := hmem e' he
    exact hts ▸ h.ts e he
  · have hdesc : (es.map Rtb.origin).Pairwise fun a b => b.2.1 ≤ a.2.1 := List.pairwise_map.mpr h.desc
    exact List.pairwise_map.mp (hdesc.sublist hsub)
  · intro e' he hskip
    obtain ⟨e, he, hnum, hts, hack, hskip'⟩ := hmem e' he
    rw [← hnum, ← hts, ← hack]
    exact h.sent e he (hskip'.trans hskip)
  · intro e' he
    obtain ⟨e, he, hnum, -⟩ := hmem e' he
    exact hnum ▸ h.unacked e he

theorem Tracks.later {now' : Nat} (h : Tracks now sent acks es) (hle : now ≤ now') : Tracks now' sent acks es :=
  ⟨h.pktNum, fun e he => (h.ts e he).trans hle, h.desc, h.sent, h.unacked⟩

theorem Tracks.sends (h : Tracks now sent acks es) (pkt : SentPkt) : Tracks now (pkt :: sent) acks es :=
  ⟨h.pktNum, h.ts, h.desc, fun e he hskip => List.mem_cons_of_mem pkt (h.sent e he hskip), h.unacked⟩

theorem Tracks.cons {e : Entry} (h : Tracks now sent acks es) (hnum : 0 ≤ e.pktNum) (hts : e.ts = now)
    (hsent : e.sent.skip = false → ⟨e.pktNum, e.ts, e.sent.ackEliciting⟩ ∈ sent)
    (hunacked : ∀ fr ∈ acks, covers fr e.pktNum = false) : Tracks now sent acks (e :: es) :=
  ⟨List.forall_mem_cons.mpr ⟨hnum, h.pktNum⟩, List.forall_mem_cons.mpr ⟨hts.le, h.ts⟩,
    List.pairwise_cons.mpr ⟨fun b hb => hts ▸ h.ts b hb, h.desc⟩, List.forall_mem_cons.mpr ⟨hsent, h.sent⟩,
    List.forall_mem_cons.mpr ⟨hunacked, h.unacked⟩⟩

end Tracks

section Step

variable {s s' : AppSpace}

theorem Inv.later (h : Inv s) {ts : Nat} (hle : s.now ≤ ts) (hlt : ts < uint64Max) : Inv { s with now := ts } :=
  ⟨h.base, h.last, h.ccPktNum, hlt, h.tracks.later hle, h.acks, h.declared⟩

/-- The buffer gets another one, whose entries were there before. -/
theorem Inv.withRtb (h : Inv s) {rtb : Rtb} (hk : Rtb.Kept s.base.rtb rtb) (hd : Rtb.Descends s.base.rtb rtb) : Inv (s.withRtb rtb) :=
  ⟨h.base.of_kept hk rfl, h.last, hk.ccPktNum ▸ h.ccPktNum, h.now, h.tracks.descends hd, h.acks, h.declared⟩

theorem Inv.resets (h : Inv s) {t : Nat} : Inv { s with firstRttSampleTs := t } :=
  ⟨h.base, h.last, h.ccPktNum, h.now, h.tracks, h.acks, h.declared⟩

theorem Inv.updateRtt (h : Inv s) : Inv s.updateRtt := by
  rw [AppSpace.updateRtt]
  split
  · exact h.resets
  · exact h

theorem Inv.unacked_next (h : Inv s) : ∀ fr ∈ s.acks, covers fr (s.base.lastPktNum + 1) = false := by
  intro fr hfr
  cases hcovers : covers fr (s.base.lastPktNum + 1) with
  | false => rfl
  | true =>
      have := covers_le hcovers
      have := h.acks fr hfr
      omega

/-- An entry with the next packet number, of a packet that was sent or of a number that is skipped. -/
theorem Inv.adds (h : Inv s) {type : PktType} {pktlen : Nat} {flags : SentFlags} {base : State} {sent : List SentPkt}
    (hsent : sent = s.sent ∨ ∃ pkt, sent = pkt :: s.sent)
    (hmem : flags.skip = false → ⟨s.base.lastPktNum + 1, s.now, flags.ackEliciting⟩ ∈ sent)
    (hstep : s.base.step (.add (s.base.lastPktNum + 1) type s.now pktlen flags) = .ok base) :
    Inv { s with base := base, sent := sent } := by
  have hlast := h.last
  have hnew : ∀ a ∈ s.base.rtb.ents, a.pktNum < s.base.lastPktNum + 1 := fun a ha => Int.lt_add_one_of_le (h.base.used a ha)
  have hallowed : s.base.Allowed (.add (s.base.lastPktNum + 1) type s.now pktlen flags) := ⟨Int.lt_succ _, h.ccPktNum⟩
  have hbase := State.step_inv s.base _ h.base hallowed
  obtain ⟨r, hadd, -, hents⟩ := h.base.sound.add hnew h.ccPktNum type s.now pktlen flags
  have hcc := Rtb.add_ccPktNum hadd
  rw [hstep] at hbase
  rw [State.step, hadd] at hstep
  cases hstep
  have htracks : Tracks s.now sent s.acks s.base.rtb.ents := by
    obtain rfl | ⟨pkt, rfl⟩ := hsent
    · exact h.tracks
    · exact h.tracks.sends pkt
  refine ⟨hbase, ?_, ?_, h.now, ?_, ?_, ?_⟩
  · change -1 ≤ s.base.lastPktNum + 1
    omega
  · change r.ccPktNum ≤ s.base.lastPktNum + 1 + 1
    have := h.ccPktNum
    omega
  · change Tracks s.now sent s.acks r.ents
    rw [hents]
    exact htracks.cons (show 0 ≤ s.base.lastPktNum + 1 by omega) rfl hmem h.unacked_next
  · intro fr hfr
    exact Int.le_add_one (h.acks fr hfr)
  · intro d hd
    obtain rfl | ⟨pkt, rfl⟩ := hsent
    · exact h.declared d hd
    · exact (h.declared d hd).sends pkt

/-- The buffer is as `rtb_detect_lost_pkt` leaves it. -/
theorem detectLostPkt_rtb {l : Loss} (hrun : s.detectLostPkt l = .ok s') :
    ∃ n, s.base.rtb.detectLostPkt (s.loss l) = .ok (s'.base.rtb, n) := by
  obtain ⟨⟨marked, n⟩, hmark, hrun⟩ := bind_ok hrun
  obtain ⟨rtb, hdrop, hrun⟩ := bind_ok hrun
  refine ⟨n, ?_⟩
  rw [Rtb.detected] at hmark
  rw [Rtb.detectLostPkt]
  simp only at hmark hdrop ⊢
  rw [hmark]
  simp only [bind, Except.bind]
  rw [hdrop]
  split at hrun
  · cases hrun
    rfl
  · cases hrun
    rfl

/-- The buffer is as `ngtcp2_rtb_recv_ack` leaves it. -/
theorem recvAck_rtb {fr : AckFrame} {sampled : Bool} {l : Loss} (hrun : s.event (.recvAck fr sampled l) = .ok s') :
    ∃ l n, s.base.rtb.recvAck fr l = .ok (s'.base.rtb, n) := by
  obtain ⟨⟨s₁, n⟩, htake, hrun⟩ := bind_ok hrun
  rw [AppSpace.takeAcked] at htake
  split at htake
  · cases htake
  · obtain ⟨⟨rtb, numAcked⟩, hacked, htake⟩ := bind_ok htake
    cases htake
    have hbase : (if sampled then AppSpace.updateRtt { s.withRtb rtb with acks := fr :: s.acks }
        else { s.withRtb rtb with acks := fr :: s.acks }).base = { s.base with rtb := rtb } := by
      rw [AppSpace.updateRtt]
      split_ifs <;> rfl
    generalize (if sampled then AppSpace.updateRtt { s.withRtb rtb with acks := fr :: s.acks }
        else { s.withRtb rtb with acks := fr :: s.acks }) = s₂ at hbase hrun
    have hrtb : s₂.base.rtb = rtb := congrArg State.rtb hbase
    simp only at hrun
    refine ⟨s₂.loss l, n, ?_⟩
    rw [Rtb.recvAck_takeAcked, hacked]
    simp only [bind, Except.bind]
    split at hrun
    · rename_i hzero
      cases hrun
      rw [if_pos hzero, hrtb, hzero]
    · rename_i hne
      obtain ⟨lost, hdetect⟩ := detectLostPkt_rtb hrun
      rw [hrtb] at hdetect
      rw [if_neg hne, hdetect]

/-- Losses are detected, and what is declared is justified. -/
theorem Inv.detectLostPkt (h : Inv s) {l : Loss} (hm : s.base.rtb.Measured (s.loss l)) (hrun : s.detectLostPkt l = .ok s') :
    Inv s' := by
  obtain ⟨r₁, r₂, n, hmark, hkept, hdrop, -, hpruned⟩ := h.base.sound.detectLostPkt_parts (s.loss l)
  have hdescends : Rtb.Descends s.base.rtb r₂ := by
    have hents := (Rtb.detectMark_unmarked hmark).1
    rw [Rtb.detected_append] at hents
    have hsub := hpruned.descends
    rwa [Rtb.Descends, Rtb.map_origin hents] at hsub
  have hinv := h.withRtb (hkept.trans hpruned.toKept) hdescends
  rw [AppSpace.detectLostPkt] at hrun
  simp only at hrun
  rw [hmark] at hrun
  simp only [bind, Except.bind] at hrun
  rw [hdrop] at hrun
  simp only at hrun
  split at hrun
  · rename_i hcongestion
    cases hrun
    have hnow := h.now
    have hfit : ∀ e ∈ s.base.rtb.ents, e.ts < 2 ^ 64 := fun e he =>
      Nat.lt_of_le_of_lt (h.tracks.ts e he) (hnow.trans (by decide))
    obtain ⟨a, ha, b, hb, hawaited, hbwaited, hasince, hbsince, hle, hlt, hbetween⟩ :=
      Rtb.onPersistentCongestion_awaited hcongestion hm h.base.sound h.tracks.pktNum h.tracks.desc hfit
    have hord := h.base.sound.ordered.sublist (Rtb.detected_sublist s.base.rtb (s.loss l))
    have hmarked := (Rtb.detectMark_eq hmark hord).1
    have hlost : ∀ e ∈ (s.base.rtb.detected (s.loss l)).2, e.pktNum ∈ (r₁.ents.filter (·.lostRetransmitted)).map Entry.pktNum := by
      intro e he
      have hnum : (e.markLost (s.loss l).ts).pktNum = e.pktNum := by
        rw [Entry.markLost]
        split <;> rfl
      rw [← hnum]
      refine List.mem_map_of_mem (List.mem_filter.mpr ⟨?_, Entry.markLost_lost _ e⟩)
      rw [hmarked]
      exact List.mem_append_right _ (List.mem_map_of_mem he)
    have hsent : ∀ e ∈ (s.base.rtb.detected (s.loss l)).2, e.awaited = true →
        ⟨e.pktNum, e.ts, true⟩ ∈ s.sent := by
      intro e he hawaited
      simp only [Entry.awaited, Bool.and_eq_true, Bool.not_eq_true'] at hawaited
      have hmem := h.tracks.sent e ((Rtb.detected_sublist _ _).subset he) hawaited.2
      rwa [hawaited.1] at hmem
    obtain ⟨haconfirmed, hasampled⟩ := Nat.max_le.mp hasince
    obtain ⟨hbconfirmed, hbsampled⟩ := Nat.max_le.mp hbsince
    refine ⟨hinv.base, hinv.last, hinv.ccPktNum, hnow, hinv.tracks, hinv.acks, List.forall_mem_cons.mpr ⟨?_, h.declared⟩⟩
    refine ⟨_, hsent a ha hawaited, _, hsent b hb hbwaited, rfl, rfl, hlost a ha, hlost b hb, haconfirmed, hbconfirmed,
      hasampled, hbsampled, hle, hlt, ?_⟩
    intro m hbm hma fr hfr
    obtain ⟨x, hx, rfl⟩ := hbetween m hbm hma
    exact h.tracks.unacked x hx fr hfr
  · cases hrun
    exact hinv

theorem Inv.takeAcked (h : Inv s) {fr : AckFrame} {sampled : Bool} {n : Nat} (hrun : s.takeAcked fr sampled = .ok (s', n)) :
    Inv s' := by
  rw [AppSpace.takeAcked] at hrun
  split at hrun
  · cases hrun
  · rename_i hle
    obtain ⟨⟨rtb, numAcked⟩, htake, hrun⟩ := bind_ok hrun
    cases hrun
    obtain ⟨hpruned, huncovered⟩ := Rtb.takeAcked_spec h.base.sound htake
    have hinv := h.withRtb hpruned.toKept hpruned.descends
    have hacked : Inv { s.withRtb rtb with acks := fr :: s.acks } := by
      refine ⟨hinv.base, hinv.last, hinv.ccPktNum, hinv.now, ?_, ?_, hinv.declared⟩
      · refine ⟨hinv.tracks.pktNum, hinv.tracks.ts, hinv.tracks.desc, hinv.tracks.sent, fun e he => ?_⟩
        exact List.forall_mem_cons.mpr ⟨huncovered e he, hinv.tracks.unacked e he⟩
      · exact List.forall_mem_cons.mpr ⟨Int.not_lt.mp hle, h.acks⟩
    cases sampled with
    | true => exact hacked.updateRtt
    | false => exact hacked

theorem upkeeps_removes {op : Op} (hop : upkeeps (.upkeep op) = true) : State.Removes op ∨ ∃ bytes, op = .others bytes := by
  cases op with
  | add => cases hop
  | recvAck => cases hop
  | detectLostPkt => cases hop
  | resetCcState => cases hop
  | others bytes => exact Or.inr ⟨bytes, rfl⟩
  | _ => exact Or.inl trivial

theorem upkeep_descends (h : Inv s) {op : Op} {base : State} (hop : upkeeps (.upkeep op) = true) (hstep : s.base.step op = .ok base) :
    Rtb.Descends s.base.rtb base.rtb := by
  obtain hremoves | ⟨bytes, rfl⟩ := upkeeps_removes hop
  · exact h.base.step_descends hremoves hstep
  · cases hstep
    exact List.Sublist.refl _

/-- None of these uses a packet number, or changes the number from which congestion control counts. -/
theorem upkeep_same (h : Inv s) {op : Op} {base : State} (hop : upkeeps (.upkeep op) = true) (hstep : s.base.step op = .ok base) :
    base.Inv ∧ base.lastPktNum = s.base.lastPktNum ∧ base.rtb.ccPktNum = s.base.rtb.ccPktNum := by
  obtain hremoves | ⟨bytes, rfl⟩ := upkeeps_removes hop
  · have hends := h.base.step_kept hremoves
    rw [hstep] at hends
    exact ⟨h.base.of_kept hends.1 hends.2, hends.2, hends.1.ccPktNum⟩
  · have hends := State.step_inv s.base (.others bytes) h.base trivial
    cases hstep
    exact ⟨hends, rfl, rfl⟩

theorem Inv.upkeep (h : Inv s) {op : Op} {base : State} (hop : upkeeps (.upkeep op) = true) (hstep : s.base.step op = .ok base) :
    Inv { s with base := base } := by
  have hdescends := upkeep_descends h hop hstep
  obtain ⟨hbase, hlast, hcc⟩ := upkeep_same h hop hstep
  refine ⟨hbase, ?_, ?_, h.now, h.tracks.descends hdescends, ?_, h.declared⟩
  · exact hlast ▸ h.last
  · rw [hlast, hcc]
    exact h.ccPktNum
  · rw [hlast]
    exact h.acks

/-- The congestion state starts anew with the next packet, whatever entries are left. -/
theorem Inv.resetCcState (h : Inv s) {rtb : Rtb} (hsound : rtb.Sound) (hdescends : Rtb.Descends s.base.rtb rtb)
    (hused : ∀ e ∈ rtb.ents, e.pktNum ≤ s.base.lastPktNum) :
    Inv { s.withRtb (rtb.resetCcState (s.base.lastPktNum + 1)) with firstRttSampleTs := uint64Max } :=
  ⟨⟨hsound.resetCcState fun a ha => Int.lt_add_one_of_le (hused a ha), hused⟩, h.last, le_rfl, h.now,
    h.tracks.descends hdescends, h.acks, h.declared⟩

theorem event_inv (h : Inv s) {ev : Event} (hop : upkeeps ev = true) (hm : s.Measured ev) (hrun : s.event ev = .ok s') : Inv s' := by
  cases ev with
  | writePkt type pktlen sent =>
      obtain ⟨base, hstep, hrun⟩ := bind_ok hrun
      cases hrun
      refine h.adds (Or.inr ⟨_, rfl⟩) ?_ hstep
      exact fun _ => List.mem_cons_self
  | writeUntracked =>
      cases hrun
      refine ⟨⟨h.base.sound, fun e he => Int.le_add_one (h.base.used e he)⟩, ?_, ?_, h.now, h.tracks, ?_, h.declared⟩
      · exact Int.le_add_one h.last
      · exact Int.le_add_one h.ccPktNum
      · exact fun fr hfr => Int.le_add_one (h.acks fr hfr)
  | handleSkipPkt =>
      obtain ⟨base, hstep, hrun⟩ := bind_ok hrun
      cases hrun
      exact h.adds (Or.inl rfl) (fun hskip => by cases hskip) hstep
  | recvAck fr sampled l =>
      obtain ⟨⟨s₁, n⟩, htake, hrun⟩ := bind_ok hrun
      have hinv := h.takeAcked htake
      rw [Measured, htake] at hm
      simp only at hrun hm
      split at hrun
      · cases hrun
        exact hinv
      · rename_i hne
        obtain hzero | hm := hm
        · exact absurd hzero hne
        · exact hinv.detectLostPkt hm hrun
  | onLossDetectionTimer l => exact h.detectLostPkt hm hrun
  | upkeep op =>
      obtain ⟨base, hstep, hrun⟩ := bind_ok hrun
      cases hrun
      exact h.upkeep hop hstep
  | resetCongestionState =>
      cases hrun
      exact h.resetCcState h.base.sound (List.Sublist.refl _) h.base.used
  | recvRetry =>
      obtain ⟨rtb, hretry, hrun⟩ := bind_ok hrun
      cases hrun
      obtain ⟨hsound, hents⟩ := Rtb.reclaimOnRetry_sound h.base.sound hretry
      refine h.resetCcState hsound ?_ ?_
      · rw [Rtb.Descends, hents]
        exact List.nil_sublist _
      · rw [hents]
        exact List.forall_mem_nil _
  | handshakeConfirmed =>
      cases hrun
      exact ⟨h.base, h.last, h.ccPktNum, h.now, h.tracks, h.acks, h.declared⟩
  | updateRtt =>
      cases hrun
      exact h.updateRtt

theorem init_inv (bytesInFlight : Nat) : Inv (init bytesInFlight) :=
  ⟨State.init_inv 0 bytesInFlight, le_rfl, le_rfl, Nat.zero_lt_succ _, .nil _ _ _, List.forall_mem_nil _, List.forall_mem_nil _⟩

/-- In a run where every window is measured between packets that count, every persistent congestion that is declared is
one. -/
theorem run_justified {bytesInFlight : Nat} {is : List (Nat × Event)} (hallowed : Guarded step Allowed (init bytesInFlight) is)
    (hmeasured : Guarded step (fun s i => { s with now := i.1 }.Measured i.2) (init bytesInFlight) is)
    (hrun : run step (init bytesInFlight) is = .ok s) : ∀ d ∈ s.declared, d.Justified s.sent := by
  have hstep : ∀ (s : AppSpace) (i : Nat × Event) (s' : AppSpace), Inv s →
      s.Allowed i ∧ { s with now := i.1 }.Measured i.2 → step s i = .ok s' → Inv s' := by
    rintro s ⟨ts, ev⟩ s' h ⟨⟨hle, hlt, hop⟩, hm⟩ hrun
    exact event_inv (h.later hle hlt) hop hm hrun
  exact (run_preserves hstep (init_inv bytesInFlight) (hallowed.and hmeasured) hrun).declared

end Step

/-- A packet of 1200 bytes that is to be acknowledged, `ms` milliseconds after the start. -/
def samplePkt (ms : Nat) : Nat × Event :=
  (ms * 1000000, .writePkt .oneRtt 1200 ⟨true, true, true, false, false⟩)

def sampleAck (ms largestAck firstAckRange : Nat) : Nat × Event :=
  (ms * 1000000, .recvAck ⟨none, largestAck, firstAckRange, 0, 0, []⟩ true
    ⟨0, 100000000, 100000000, 50000000, 25000000, 0, 1200, true⟩)

/-- The congestion period is 975 ms; the packets sent at 2 s arrive, but for those of `lost`. -/
def sampleRun (lost : List (Nat × Event)) (largestAck : Nat) : List (Nat × Event) :=
  [samplePkt 1, sampleAck 101 0 0, (150000000, .handshakeConfirmed), samplePkt 1000] ++ lost ++
    [samplePkt 2000, samplePkt 2000, samplePkt 2000, sampleAck 2100 largestAck 2]

def sampleSkip : Nat × Event :=
  (2000000000, .handleSkipPkt)

/-- The number that is skipped along with the packet 2 counts for it. -/
theorem run_justified_skip :
    ∃ s d, run step (init 0) (sampleRun [samplePkt 2000, sampleSkip] 6) = .ok s ∧ s.declared = [d] ∧ d.lost = [3, 2, 1] ∧
      d.Justified s.sent := by
  have hok : ((run step (init 0) (sampleRun [samplePkt 2000, sampleSkip] 6)).map fun s => s.declared.map Declared.lost) =
      .ok [[3, 2, 1]] := by
    decide +kernel
  cases hrun : run step (init 0) (sampleRun [samplePkt 2000, sampleSkip] 6) with
  | error stop =>
      rw [hrun] at hok
      cases hok
  | ok s =>
      rw [hrun] at hok
      have hjustified := run_justified (by decide +kernel) (by decide +kernel) hrun
      obtain ⟨d, hd, hlost⟩ := List.map_eq_singleton_iff.mp (Except.ok.inj hok)
      rw [hd] at hjustified
      exact ⟨s, d, rfl, hd, hlost, hjustified d List.mem_cons_self⟩

/-- Between the packet 1 and the number 2, which was never sent, lies a second. -/
theorem run_unjustified :
    ¬ ∀ (bytesInFlight : Nat) (is : List (Nat × Event)) (s : AppSpace), Guarded step Allowed (init bytesInFlight) is →
      run step (init bytesInFlight) is = .ok s → ∀ d ∈ s.declared, d.Justified s.sent := by
  intro h
  have hok : ((run step (init 0) (sampleRun [sampleSkip] 5)).map fun s =>
      (s.sent.map SentPkt.pktNum, s.declared.map Declared.lost)) = .ok ([5, 4, 3, 1, 0], [[2, 1]]) := by
    decide +kernel
  cases hrun : run step (init 0) (sampleRun [sampleSkip] 5) with
  | error stop =>
      rw [hrun] at hok
      cases hok
  | ok s =>
      rw [hrun] at hok
      obtain ⟨hsent, hdeclared⟩ := Prod.mk.inj (Except.ok.inj hok)
      obtain ⟨d, hd, hlost⟩ := List.map_eq_singleton_iff.mp hdeclared
      obtain ⟨a, ha, b, hb, -, -, halost, hblost, -, -, -, -, -, hlt, -⟩ :=
        h 0 _ s (by decide +kernel) hrun d (hd ▸ List.mem_cons_self)
      have hnum : ∀ pkt ∈ s.sent, pkt.pktNum ∈ d.lost → pkt.pktNum = 1 := by
        intro pkt hpkt hmem
        have hpkt := List.mem_map_of_mem (f := SentPkt.pktNum) hpkt
        rw [hsent] at hpkt
        rw [hlost] at hmem
        simp only [List.mem_cons, List.not_mem_nil, or_false] at hpkt hmem
        omega
      rw [hnum a ha halost, hnum b hb hblost] at hlt
      exact absurd hlt (Int.lt_irrefl 1)

end AppSpace

end Zngtcp2.RtbTx
