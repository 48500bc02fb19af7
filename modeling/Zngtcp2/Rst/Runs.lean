import Zngtcp2.Rst.Sample

namespace Zngtcp2.RateSample

open Lib.Run RtbTx
open PktnsRx (AckFrame)
open Pkt (PktType)
open RtbTx.Counters (InStep)

/-- `ngtcp2_pktns_id` -/
inductive PktnsId
  | initial
  | handshake
  | application
  deriving DecidableEq, Repr

/-- A packet when it is sent: the snapshot of its entry, and what no function reads, the bytes that were acknowledged
and lost so far and those in flight just afterwards. -/
structure Sending where
  snap : Snapshot
  acked : Nat
  lost : Nat
  inFlight : Nat
  deriving DecidableEq, Repr

structure Space where
  base : State
  sent : Int → Sending

/-- The packet number spaces and what they share. No function reads the totals of the bytes acknowledged and lost. -/
structure Conn where
  spaces : PktnsId → Space
  bytesInFlight : Nat
  rst : Rst
  stat : Stat
  now : Nat
  acked : Nat
  lost : Nat

/-- What happens at a time. -/
inductive Event
  | add (id : PktnsId) (pktNum : Int) (type : PktType) (pktlen : Nat) (sent : SentFlags)
  | recvAck (id : PktnsId) (fr : AckFrame) (l : Loss) (minRtt : Nat)
  | detectLostPkt (id : PktnsId) (l : Loss)
  | upkeep (id : PktnsId) (op : Op)
  | reclaimOnRetry (id : PktnsId)
  | discardPktns (id : PktnsId)
  | resetCongestionState
  | appLimited
  | cwndLimited

def Space.init : Space where
  base := .init 0 0
  sent := fun _ => ⟨⟨0, 0, 0, false, 0, 0, 0⟩, 0, 0, 0⟩

/-- The congestion state of the packet number space starts anew with the next packet. -/
def Space.resetCcState (s : Space) : Space :=
  { s with base := { s.base with rtb := s.base.rtb.resetCcState (s.base.lastPktNum + 1) } }

namespace Conn

def init : Conn where
  spaces := fun _ => .init
  bytesInFlight := 0
  rst := .init
  stat := ⟨uint64Max, 0⟩
  now := 0
  acked := 0
  lost := 0

variable (c : Conn)

/-- The packet number space, with the bytes in flight of the connection. -/
def base (id : PktnsId) : State :=
  let s := (c.spaces id).base
  { s with rtb := { s.rtb with counters := { s.rtb.counters with bytesInFlight := c.bytesInFlight } } }

def withSpace (id : PktnsId) (space : Space) : Conn :=
  { c with spaces := Function.update c.spaces id space, bytesInFlight := space.base.rtb.counters.bytesInFlight }

def withRtb (id : PktnsId) (rtb : Rtb) : Conn :=
  c.withSpace id { c.spaces id with base := { (c.spaces id).base with rtb := rtb } }

/-- `conn_discard_pktns` -/
def discardPktns (id : PktnsId) : Except RateStop Conn :=
  let ccBytesInFlight := (c.spaces id).base.rtb.counters.ccBytesInFlight
  if c.bytesInFlight < ccBytesInFlight then .error (.rtb (.fault .assertion))
  else .ok { c with spaces := Function.update c.spaces id .init, bytesInFlight := c.bytesInFlight - ccBytesInFlight }

/-- `conn_reset_congestion_state` -/
def resetCongestionState : Conn :=
  { c with
    spaces := fun id => if id = .initial then c.spaces id else (c.spaces id).resetCcState
    bytesInFlight := 0
    rst := c.rst.reset
    stat := ⟨uint64Max, 0⟩ }

def event : Event → Except RateStop Conn
  | .add id pktNum type pktlen sent => do
      let e := Entry.init pktNum type c.now pktlen sent
      let rtb ← lift ((c.base id).rtb.add e)
      let (rst, snap) := c.rst.onPktSent e rtb.counters.bytesInFlight
      let sending := ⟨snap, c.acked, c.lost, rtb.counters.bytesInFlight⟩
      .ok { c.withSpace id ⟨⟨rtb, pktNum⟩, Function.update (c.spaces id).sent pktNum sending⟩ with rst := rst }
  | .recvAck id fr l minRtt => do
      let r := (c.base id).rtb
      let res ← RateSample.recvAck r c.rst { c.stat with minRtt := minRtt } (fun n => ((c.spaces id).sent n).snap) fr
        { l with ts := c.now }
      .ok { c.withRtb id res.rtb with
        rst := res.rst
        stat := res.stat
        acked := c.acked + Rtb.deliveredBytes r.ccPktNum (r.acked fr)
        lost := c.lost + res.lost }
  | .detectLostPkt id l => do
      let (rtb, lost) ← lift ((c.base id).rtb.detectLostPkt { l with ts := c.now })
      .ok { c.withRtb id rtb with rst := lostBytes lost c.rst, lost := c.lost + lost }
  | .upkeep id op => do
      let base ← lift ((c.base id).step op)
      .ok (c.withRtb id base.rtb)
  | .reclaimOnRetry id => do
      let rtb ← lift ((c.base id).rtb.reclaimOnRetry)
      .ok (c.withRtb id rtb)
  | .discardPktns id => c.discardPktns id
  | .resetCongestionState => .ok c.resetCongestionState
  | .appLimited => .ok { c with rst := { c.rst with appLimited := max (c.rst.delivered + c.bytesInFlight) 1 } }
  | .cwndLimited => .ok { c with rst := { c.rst with isCwndLimited := true } }

def step (c : Conn) (i : Nat × Event) : Except RateStop Conn :=
  { c with now := i.1 }.event i.2

/-- The operations on a buffer that neither send nor acknowledge a packet, and detect no loss. -/
def upkeeps : Op → Bool
  | .reclaimOnPto .. | .removeExcessiveLostPkt _ | .removeExpiredLostPkt .. | .removeEarlyData => true
  | _ => false

/-- Only a skipped packet number has no bytes; the Initial space is discarded, or emptied by a Retry packet, before
the congestion state is reset. -/
def Permits (c : Conn) : Event → Prop
  | .add id pktNum type pktlen sent =>
      (c.spaces id).base.Allowed (.add pktNum type c.now pktlen sent) ∧ (sent.skip = decide (pktlen = 0))
  | .upkeep _ op => upkeeps op = true
  | .resetCongestionState => (c.spaces .initial).base.rtb.ents = []
  | _ => True

/-- The clock does not go back. -/
def Allowed (c : Conn) (i : Nat × Event) : Prop :=
  c.now ≤ i.1 ∧ i.1 < uint64Max ∧ c.Permits i.2

instance decidablePermits (c : Conn) (ev : Event) : Decidable (c.Permits ev) :=
  match ev with
  | .add .. => inferInstanceAs (Decidable (_ ∧ _))
  | .upkeep .. => inferInstanceAs (Decidable (_ = _))
  | .resetCongestionState => inferInstanceAs (Decidable (_ = _))
  | .recvAck .. | .detectLostPkt .. | .reclaimOnRetry .. | .discardPktns .. | .appLimited | .cwndLimited => .isTrue trivial

instance (c : Conn) (i : Nat × Event) : Decidable (c.Allowed i) :=
  inferInstanceAs (Decidable (_ ∧ _ ∧ _))

end Conn

/-- What is noted of a packet agrees with what has happened since it was sent. -/
structure Recorded (c : Conn) (s : Sending) (e : Entry) : Prop where
  past : Past s.snap e.ts c.rst.delivered c.now
  acked : s.snap.delivered + c.acked = c.rst.delivered + s.acked
  pktId : s.snap.pktId ≤ c.rst.pktId
  inFlight : e.sent.skip = false → 0 < s.inFlight

/-- The invariant of a packet number space: the packets that count are recorded, and were sent in the order of their numbers. -/
structure Space.Inv (c : Conn) (s : Space) : Prop where
  base : s.base.Inv
  recorded : ∀ e ∈ s.base.rtb.ents, s.base.rtb.ccPktNum ≤ e.pktNum → Recorded c (s.sent e.pktNum) e
  earlier : ∀ a ∈ s.base.rtb.ents, ∀ b ∈ s.base.rtb.ents, s.base.rtb.ccPktNum ≤ b.pktNum → b.pktNum < a.pktNum →
    Earlier (fun n => (s.sent n).snap) b a

/-- The bytes in flight of all packet number spaces. -/
def flight (spaces : PktnsId → Space) : Nat :=
  (spaces .initial).base.rtb.counters.ccBytesInFlight + (spaces .handshake).base.rtb.counters.ccBytesInFlight +
    (spaces .application).base.rtb.counters.ccBytesInFlight

/-- The last two fields of the sample are never written. -/
structure Conn.Inv (c : Conn) : Prop where
  space : ∀ id, Space.Inv c (c.spaces id)
  flight : c.bytesInFlight = flight c.spaces
  now : c.now < uint64Max
  deliveredTs : c.rst.deliveredTs ≤ c.now
  firstSentTs : c.rst.firstSentTs ≤ c.now
  txInFlight : c.rst.rs.txInFlight = 0
  lost : c.rst.rs.lost = 0

section Frames

variable {c c' : Conn} {s : Space}

/-- So many bytes are acknowledged, and packets may have been sent. -/
structure Conn.Moves (c c' : Conn) (bytes : Nat) : Prop where
  delivered : c'.rst.delivered = c.rst.delivered + bytes
  acked : c'.acked = c.acked + bytes
  pktId : c.rst.pktId ≤ c'.rst.pktId
  now : c.now ≤ c'.now

theorem Recorded.moves {sending : Sending} {e : Entry} (h : Recorded c sending e) {bytes : Nat} (hm : c.Moves c' bytes) :
    Recorded c' sending e := by
  refine ⟨⟨?_, h.past.deliveredTs.trans hm.now, h.past.firstSentTs, h.past.sentTs.trans hm.now⟩, ?_, h.pktId.trans hm.pktId,
    h.inFlight⟩
  · rw [hm.delivered]
    exact Nat.le_add_right_of_le h.past.delivered
  · rw [hm.delivered, hm.acked, ← Nat.add_assoc, h.acked, Nat.add_right_comm]

theorem Space.Inv.moves (h : s.Inv c) {bytes : Nat} (hm : c.Moves c' bytes) : s.Inv c' :=
  ⟨h.base, fun e he hcc => (h.recorded e he hcc).moves hm, h.earlier⟩

/-- An invariant of a packet number space does not depend on the bytes in flight elsewhere. -/
theorem Space.Inv.withRtb (h : s.Inv c) {r rtb : Rtb} (hents : r.ents = s.base.rtb.ents) (hcc : r.ccPktNum = s.base.rtb.ccPktNum)
    (hkept : Rtb.Kept r rtb) (hdescends : Rtb.Descends r rtb) :
    Space.Inv c { s with base := { s.base with rtb := rtb } } := by
  have hmem : ∀ e ∈ rtb.ents, ∃ a ∈ s.base.rtb.ents, Rtb.origin a = Rtb.origin e := by
    intro e he
    obtain ⟨a, ha, heq⟩ := List.mem_map.mp (hdescends.subset (List.mem_map_of_mem he))
    exact ⟨a, hents ▸ ha, heq⟩
  simp only [Rtb.origin, Prod.mk.injEq] at hmem
  have hccPktNum : rtb.ccPktNum = s.base.rtb.ccPktNum := hkept.ccPktNum.trans hcc
  refine ⟨⟨hkept.sound, fun e he => ?_⟩, fun e he hle => ?_, fun a ha b hb hle hlt => ?_⟩
  · obtain ⟨a, ha, hnum, -⟩ := hmem e he
    exact hnum ▸ h.base.used a ha
  · obtain ⟨a, ha, hnum, hts, -, hskip⟩ := hmem e he
    rw [hccPktNum, ← hnum] at hle
    have hrec := h.recorded a ha hle
    rw [hnum] at hrec
    exact ⟨hts ▸ hrec.past, hrec.acked, hrec.pktId, hskip ▸ hrec.inFlight⟩
  · obtain ⟨a₀, ha₀, hanum, -⟩ := hmem a ha
    obtain ⟨b₀, hb₀, hbnum, -⟩ := hmem b hb
    rw [hccPktNum, ← hbnum] at hle
    rw [← hanum, ← hbnum] at hlt
    have hearlier := h.earlier a₀ ha₀ b₀ hb₀ hle hlt
    rwa [Earlier, hanum, hbnum] at hearlier

/-- The packets that count, the newest one first. -/
theorem Space.Inv.counted_past (h : s.Inv c) :
    ∀ e ∈ counted s.base.rtb.ccPktNum s.base.rtb.ents, Past (s.sent e.pktNum).snap e.ts c.rst.delivered c.now := by
  intro e he
  obtain ⟨hmem, hcc⟩ := List.mem_filter.mp he
  exact (h.recorded e hmem (of_decide_eq_true hcc)).past

theorem Space.Inv.counted_earlier (h : s.Inv c) :
    (counted s.base.rtb.ccPktNum s.base.rtb.ents).Pairwise fun a b => Earlier (fun n => (s.sent n).snap) b a := by
  have hdesc := h.base.sound.ordered.desc.sublist (List.filter_sublist (p := (s.base.rtb.ccPktNum ≤ ·.pktNum)))
  refine List.Pairwise.imp_of_mem ?_ hdesc
  intro a b ha hb hlt
  obtain ⟨hamem, -⟩ := List.mem_filter.mp ha
  obtain ⟨hbmem, hcc⟩ := List.mem_filter.mp hb
  exact h.earlier a hamem b hbmem (of_decide_eq_true hcc) hlt

/-- A packet is sent in the packet number space. -/
theorem Space.Inv.sends (h : s.Inv c) {rtb : Rtb} {e : Entry} {sending : Sending} (hsound : rtb.Sound)
    (hents : rtb.ents = e :: s.base.rtb.ents) (hcc : rtb.ccPktNum = s.base.rtb.ccPktNum) (hlt : s.base.lastPktNum < e.pktNum)
    (hm : c.Moves c' 0) (hrec : Recorded c' sending e) (hdelivered : sending.snap.delivered = c.rst.delivered)
    (hpktId : c.rst.pktId < sending.snap.pktId) :
    Space.Inv c' ⟨⟨rtb, e.pktNum⟩, Function.update s.sent e.pktNum sending⟩ := by
  have hold : ∀ a ∈ s.base.rtb.ents, a.pktNum ≠ e.pktNum := fun a ha =>
    Int.ne_of_lt (Int.lt_of_le_of_lt (h.base.used a ha) hlt)
  have hcons : ∀ {P : Entry → Prop}, P e → (∀ a ∈ s.base.rtb.ents, P a) → ∀ a ∈ rtb.ents, P a := by
    intro P he hes
    rw [hents]
    exact List.forall_mem_cons.mpr ⟨he, hes⟩
  refine ⟨⟨hsound, ?_⟩, ?_, ?_⟩
  · exact hcons (Int.le_refl _) fun a ha => Int.le_of_lt (Int.lt_of_le_of_lt (h.base.used a ha) hlt)
  · refine hcons (fun _ => ?_) fun a ha hle => ?_
    · simp only [Function.update_self]
      exact hrec
    · simp only [Function.update_of_ne (hold a ha)]
      exact (h.recorded a ha (hcc ▸ hle)).moves hm
  · refine hcons (hcons (fun _ hlt => absurd hlt (Int.lt_irrefl _)) fun b hb hle _ => ?_)
      fun a ha => hcons (fun _ hlt' => ?_) fun b hb hle hlt' => ?_
    · have hb₀ := h.recorded b hb (hcc ▸ hle)
      simp only [Earlier, Function.update_self, Function.update_of_ne (hold b hb)]
      exact ⟨Int.lt_of_le_of_lt hb₀.pktId hpktId, hdelivered ▸ hb₀.past.delivered⟩
    · exact absurd ((h.base.used a ha).trans (Int.le_of_lt hlt)) (Int.not_le.mpr hlt')
    · simp only [Earlier, Function.update_of_ne (hold a ha), Function.update_of_ne (hold b hb)]
      exact h.earlier a ha b hb (hcc ▸ hle) hlt'

end Frames

namespace Conn

variable {c c' : Conn}

theorem Inv.cc_le (h : Inv c) (id : PktnsId) : (c.spaces id).base.rtb.counters.ccBytesInFlight ≤ c.bytesInFlight := by
  rw [h.flight, RateSample.flight]
  cases id <;> omega

/-- With the bytes in flight of the connection the buffer is as sound as before. -/
theorem Inv.base (h : Inv c) (id : PktnsId) : (c.base id).Inv := by
  have hc := (h.space id).base.sound.counts
  exact ⟨⟨⟨hc.ackEliciting, hc.retransmittable, hc.ptoEliciting, hc.lost, hc.ignored, hc.flight, h.cc_le id⟩,
    (h.space id).base.sound.ordered⟩, (h.space id).base.used⟩

theorem flight_update (h : Inv c) {id : PktnsId} {space : Space}
    (hstep : InStep (c.base id).rtb.counters space.base.rtb.counters) :
    (c.withSpace id space).bytesInFlight = RateSample.flight (c.withSpace id space).spaces := by
  have hflight := h.flight
  rw [RateSample.flight] at hflight ⊢
  rw [InStep] at hstep
  simp only [Conn.base] at hstep
  cases id <;> simp only [withSpace, Function.update, eq_rec_constant, dite_eq_ite, reduceCtorEq, if_true, if_false] <;> omega

/-- Entries are removed or changed in one packet number space, while the sample moves on. -/
theorem Inv.withRtb (h : Inv c) {id : PktnsId} {rtb : Rtb} (hkept : Rtb.Kept (c.base id).rtb rtb)
    (hdescends : Rtb.Descends (c.base id).rtb rtb) (hstep : InStep (c.base id).rtb.counters rtb.counters)
    {rst : Rst} {bytes : Nat} (hadv : Advanced c.rst rst bytes c.now) (stat : Stat) (lost : Nat) :
    Inv { c.withRtb id rtb with rst := rst, stat := stat, acked := c.acked + bytes, lost := lost } := by
  have hm : c.Moves { c.withRtb id rtb with rst := rst, stat := stat, acked := c.acked + bytes, lost := lost } bytes :=
    ⟨hadv.delivered, rfl, Int.le_of_eq hadv.pktId.symm, Nat.le_refl _⟩
  refine ⟨fun id' => ?_, ?_, h.now, hadv.deliveredTs h.deliveredTs, hadv.firstSentTs h.firstSentTs,
    hadv.txInFlight.trans h.txInFlight, hadv.lost.trans h.lost⟩
  · by_cases hid : id' = id
    · subst hid
      have hinv := (h.space id').withRtb (r := (c.base id').rtb) rfl rfl hkept hdescends
      simp only [Conn.withRtb, withSpace, Function.update_self]
      exact hinv.moves hm
    · simp only [Conn.withRtb, withSpace, Function.update_of_ne hid]
      exact (h.space id').moves hm
  · exact flight_update h hstep

theorem add_bytesInFlight {r r' : Rtb} {e : Entry} (h : r.add e = .ok r') :
    r'.counters.bytesInFlight = r.counters.bytesInFlight + e.pktlen ∧ r'.ccPktNum = r.ccPktNum := by
  rw [Rtb.add] at h
  split at h
  · cases h
  · obtain ⟨counters, hadd, h⟩ := bind_ok h
    cases h
    rw [Counters.onAdd] at hadd
    split at hadd
    · cases hadd
      exact ⟨rfl, rfl⟩
    · cases hadd

theorem Inv.add (h : Inv c) {id : PktnsId} {pktNum : Int} {type : PktType} {pktlen : Nat} {sent : SentFlags}
    (hallowed : c.Permits (.add id pktNum type pktlen sent)) :
    Ends (fun stop => stop ≠ RateStop.wrap) Inv (c.event (.add id pktNum type pktlen sent)) := by
  obtain ⟨⟨hlt, hcc⟩, hskip⟩ := hallowed
  have hbase := h.base id
  have hnew : ∀ a ∈ (c.base id).rtb.ents, a.pktNum < pktNum := fun a ha => Int.lt_of_le_of_lt (hbase.used a ha) hlt
  obtain ⟨rtb, hadd, hsound, hents⟩ := hbase.sound.add hnew hcc type c.now pktlen sent
  obtain ⟨hbytes, hccPktNum⟩ := add_bytesInFlight hadd
  have hnotes := Rst.onPktSent_notes (e := .init pktNum type c.now pktlen sent) rtb.counters.bytesInFlight h.deliveredTs
    h.firstSentTs
  rw [event]
  simp only
  rw [hadd]
  simp only [lift, bind, Except.bind]
  generalize c.rst.onPktSent (.init pktNum type c.now pktlen sent) rtb.counters.bytesInFlight = p at hnotes ⊢
  obtain ⟨rst, snap⟩ := p
  simp only at hnotes ⊢
  have hm : c.Moves { c.withSpace id ⟨⟨rtb, pktNum⟩, Function.update (c.spaces id).sent pktNum
      ⟨snap, c.acked, c.lost, rtb.counters.bytesInFlight⟩⟩ with rst := rst } 0 :=
    ⟨hnotes.delivered, rfl, hnotes.pktId ▸ Int.le_add_one (Int.le_refl _), Nat.le_refl _⟩
  refine ⟨fun id' => ?_, ?_, h.now, hnotes.deliveredTs, hnotes.firstSentTs, hnotes.rs ▸ h.txInFlight, hnotes.rs ▸ h.lost⟩
  · by_cases hid : id' = id
    · subst hid
      simp only [withSpace, Function.update_self] at hm ⊢
      refine (h.space id').sends (e := .init pktNum type c.now pktlen sent) hsound hents hccPktNum hlt hm ?_
        hnotes.snapDelivered (hnotes.snapPktId ▸ Int.lt_succ _)
      refine ⟨?_, ?_, ?_, fun hsent => ?_⟩
      · exact hnotes.delivered ▸ hnotes.past
      · exact congrArg (· + c.acked) (hnotes.snapDelivered.trans hnotes.delivered.symm)
      · exact hnotes.snapPktId ▸ hnotes.pktId ▸ Int.le_refl _
      · rw [show sent.skip = false from hsent] at hskip
        have hpos : pktlen ≠ 0 := of_decide_eq_false hskip.symm
        rw [hbytes]
        exact Nat.add_pos_right _ (Nat.pos_of_ne_zero hpos)
    · simp only [withSpace, Function.update_of_ne hid] at hm ⊢
      exact (h.space id').moves hm
  · exact flight_update h (Rtb.add_inStep hadd)

/-- The packets that the frame newly acknowledges and that count, the newest one first. -/
def acks (c : Conn) (id : PktnsId) (fr : AckFrame) : List Entry :=
  counted (c.spaces id).base.rtb.ccPktNum ((c.base id).rtb.acked fr)

/-- No packet that is acknowledged has a larger `pkt_id`. -/
def Newest (c : Conn) (id : PktnsId) (fr : AckFrame) (p : Entry) : Prop :=
  p ∈ c.acks id fr ∧ ∀ q ∈ c.acks id fr, ((c.spaces id).sent q.pktNum).snap.pktId ≤ ((c.spaces id).sent p.pktNum).snap.pktId

/-- The sample describes the packet, as far as the delivery goes: what was recorded when it was sent, the bytes
acknowledged since, and the times since. -/
structure DescribesDelivery (c : Conn) (s : Sending) (p : Entry) : Prop extends Samples c.rst.rs s.snap p.ts c.now where
  delivered : s.acked + c.rst.rs.delivered = c.acked

/-- The sample describes the packet in all fields; `lost` bytes were lost until its acknowledgement. -/
structure Describes (c : Conn) (s : Sending) (p : Entry) (lost : Nat) : Prop extends DescribesDelivery c s p where
  txInFlight : c.rst.rs.txInFlight = s.inFlight
  lost : s.lost + c.rst.rs.lost = lost

theorem Inv.acks_earlier (h : Inv c) (id : PktnsId) (fr : AckFrame) :
    (c.acks id fr).Pairwise fun a b => Earlier (fun n => ((c.spaces id).sent n).snap) b a :=
  (h.space id).counted_earlier.sublist (List.Sublist.filter _ List.filter_sublist)

theorem Inv.acks_recorded (h : Inv c) {id : PktnsId} {fr : AckFrame} {p : Entry} (hp : p ∈ c.acks id fr) :
    Recorded c ((c.spaces id).sent p.pktNum) p := by
  obtain ⟨hmem, hcc⟩ := List.mem_filter.mp hp
  exact (h.space id).recorded p (List.mem_filter.mp hmem).1 (of_decide_eq_true hcc)

theorem Inv.newest_head (h : Inv c) {id : PktnsId} {fr : AckFrame} {p : Entry} (hp : c.Newest id fr p) :
    (c.acks id fr).head? = some p := by
  obtain ⟨hmem, hmax⟩ := hp
  have hsent := h.acks_earlier id fr
  cases hacks : c.acks id fr with
  | nil =>
      rw [hacks] at hmem
      cases hmem
  | cons a as =>
      rw [hacks] at hmem hmax hsent
      obtain rfl | htail := List.mem_cons.mp hmem
      · rfl
      · have hlt := ((List.pairwise_cons.mp hsent).1 p htail).1
        exact absurd (hmax a List.mem_cons_self) (Int.not_le.mpr hlt)

theorem Inv.head_newest (h : Inv c) {id : PktnsId} {fr : AckFrame} {p : Entry} {ps : List Entry}
    (hacks : c.acks id fr = p :: ps) : c.Newest id fr p := by
  have hsent := h.acks_earlier id fr
  rw [hacks] at hsent
  rw [Newest, hacks]
  refine ⟨List.mem_cons_self, List.forall_mem_cons.mpr ⟨Int.le_refl _, fun q hq => ?_⟩⟩
  exact Int.le_of_lt ((List.pairwise_cons.mp hsent).1 q hq).1

/-- A received ACK frame keeps the invariant, and the sample it leaves describes the delivery of the newest packet. -/
theorem Inv.recvAck (h : Inv c) (id : PktnsId) (fr : AckFrame) (l : Loss) (minRtt : Nat) :
    Ends (fun stop => stop ≠ RateStop.wrap) (fun c' => Inv c' ∧ ∀ p, c.Newest id fr p → p.sent.skip = false ∧
      DescribesDelivery c' ((c.spaces id).sent p.pktNum) p) (c.event (.recvAck id fr l minRtt)) := by
  have hspec : Ends (fun stop => stop ≠ RateStop.wrap)
      (Sampled (c.base id).rtb c.rst (fun n => ((c.spaces id).sent n).snap) fr c.now)
      (RateSample.recvAck (c.base id).rtb c.rst { c.stat with minRtt := minRtt } (fun n => ((c.spaces id).sent n).snap) fr
        { l with ts := c.now }) :=
    recvAck_spec (h.base id).sound (h.space id).counted_past (h.space id).counted_earlier h.now
  rw [event]
  apply Ends.bind hspec
  intro res hres
  refine ⟨h.withRtb hres.kept hres.descends hres.inStep hres.advanced res.stat (c.lost + res.lost), fun p hp => ?_⟩
  obtain ⟨hsample, hdelivered⟩ := hres.newest p (h.newest_head hp)
  have hrec := (h.acks_recorded hp.1).acked
  refine ⟨hres.unskipped p (List.mem_filter.mp hp.1).1, hsample, ?_⟩
  have htotal := hres.advanced.delivered
  simp only
  omega

theorem Inv.later (h : Inv c) {ts : Nat} (hle : c.now ≤ ts) (hlt : ts < uint64Max) : Inv { c with now := ts } :=
  ⟨fun id => (h.space id).moves (show c.Moves { c with now := ts } 0 from ⟨rfl, rfl, Int.le_refl _, hle⟩), h.flight, hlt, h.deliveredTs.trans hle,
    h.firstSentTs.trans hle, h.txInFlight, h.lost⟩

/-- The limits of the application and of the congestion window are no part of a snapshot of the past. -/
theorem Inv.advance (h : Inv c) {rst : Rst} (hadv : Advanced c.rst rst 0 c.now) : Inv { c with rst := rst } := by
  have hm : c.Moves { c with rst := rst } 0 := ⟨hadv.delivered, rfl, Int.le_of_eq hadv.pktId.symm, Nat.le_refl _⟩
  exact ⟨fun id => (h.space id).moves hm, h.flight, h.now,
    hadv.deliveredTs h.deliveredTs, hadv.firstSentTs h.firstSentTs, hadv.txInFlight.trans h.txInFlight, hadv.lost.trans h.lost⟩

theorem init_space (c : Conn) : Space.Inv c .init :=
  ⟨State.init_inv 0 0, List.forall_mem_nil _, List.forall_mem_nil _⟩

theorem init_inv : Inv init :=
  ⟨fun _ => init_space _, rfl, by decide, Nat.le_refl _, Nat.le_refl _, rfl, rfl⟩

theorem Inv.discardPktns (h : Inv c) (id : PktnsId) :
    Ends (fun stop => stop ≠ RateStop.wrap) Inv (c.discardPktns id) := by
  rw [Conn.discardPktns, if_neg (Nat.not_lt.mpr (h.cc_le id))]
  refine ⟨fun id' => ?_, ?_, h.now, h.deliveredTs, h.firstSentTs, h.txInFlight, h.lost⟩
  · by_cases hid : id' = id
    · subst hid
      simp only [Function.update_self]
      exact init_space _
    · simp only [Function.update_of_ne hid]
      refine (h.space id').moves (show c.Moves _ 0 from ?_)
      exact ⟨rfl, rfl, Int.le_refl _, Nat.le_refl _⟩
  · have hflight := h.flight
    have hzero : Space.init.base.rtb.counters.ccBytesInFlight = 0 := rfl
    rw [RateSample.flight] at hflight ⊢
    cases id <;> simp only [Function.update, eq_rec_constant, dite_eq_ite, reduceCtorEq, if_true, if_false, hzero] <;> omega

/-- No packet that was sent before counts any more. -/
theorem Inv.resetCongestionState (h : Inv c) (hinitial : (c.spaces .initial).base.rtb.ents = []) :
    Inv c.resetCongestionState := by
  have hbase : ∀ id, (c.spaces id).resetCcState.base.Inv := fun id =>
    ⟨(h.space id).base.sound.resetCcState fun a ha => Int.lt_add_one_of_le ((h.space id).base.used a ha), (h.space id).base.used⟩
  refine ⟨fun id => ?_, ?_, h.now, Nat.zero_le _, Nat.zero_le _, rfl, rfl⟩
  · simp only [Conn.resetCongestionState]
    split
    · rename_i hid
      subst hid
      refine ⟨(h.space .initial).base, ?_, ?_⟩
      · rw [hinitial]
        exact List.forall_mem_nil _
      · rw [hinitial]
        exact List.forall_mem_nil _
    · refine ⟨hbase id, fun e he hcc => ?_, fun a _ b hb hcc => ?_⟩
      · exact absurd (Int.lt_add_one_of_le ((h.space id).base.used e he)) (Int.not_lt.mpr hcc)
      · exact absurd (Int.lt_add_one_of_le ((h.space id).base.used b hb)) (Int.not_lt.mpr hcc)
  · have hzero := (h.space .initial).base.sound.counts.flight
    rw [hinitial] at hzero
    rw [RateSample.flight]
    simp only [Conn.resetCongestionState, if_true, reduceCtorEq, if_false, hzero]
    rfl

theorem upkeeps_removes {op : Op} (hop : upkeeps op = true) : State.Removes op := by
  cases op with
  | reclaimOnPto | removeExcessiveLostPkt | removeExpiredLostPkt | removeEarlyData => trivial
  | add | recvAck | detectLostPkt | resetCcState | others => cases hop

theorem event_inv (h : Inv c) {ev : Event} (hp : c.Permits ev) : Ends (fun stop => stop ≠ RateStop.wrap) Inv (c.event ev) := by
  cases ev with
  | add id pktNum type pktlen sent => exact h.add hp
  | recvAck id fr l minRtt => exact (h.recvAck id fr l minRtt).mono fun _ hinv => hinv.1
  | detectLostPkt id l =>
      apply Ends.bind (lift_ends fun _ hdetect => detectLostPkt_kept (h.base id).sound hdetect)
      rintro ⟨rtb, lost⟩ ⟨hkept, hdescends, hstep⟩
      have hadv : Advanced c.rst (lostBytes lost c.rst) 0 c.now := ⟨rfl, fun hle => hle, fun hle => hle, rfl, rfl, rfl⟩
      exact h.withRtb hkept hdescends hstep hadv c.stat (c.lost + lost)
  | upkeep id op =>
      have hremoves := upkeeps_removes hp
      have hkept := (h.base id).step_kept hremoves
      apply Ends.bind (lift_ends fun _ hstep => hstep)
      intro base hstep
      rw [hstep] at hkept
      exact h.withRtb hkept.1 ((h.base id).step_descends hremoves hstep) (State.step_inStep hremoves hstep) (Advanced.refl _ _) _ _
  | reclaimOnRetry id =>
      apply Ends.bind (lift_ends fun _ hrun => hrun)
      intro rtb hrun
      obtain ⟨hsound, hents⟩ := Rtb.reclaimOnRetry_sound (h.base id).sound hrun
      have hcc : rtb.ccPktNum = (c.base id).rtb.ccPktNum := by
        obtain ⟨counters, -, hok⟩ := bind_ok hrun
        cases hok
        rfl
      refine h.withRtb ⟨hsound, ?_, hcc⟩ ?_ (Rtb.reclaimOnRetry_inStep hrun) (Advanced.refl _ _) _ _
      · rw [hents]
        exact List.forall_mem_nil _
      · rw [Rtb.Descends, hents]
        exact List.nil_sublist _
  | discardPktns id => exact h.discardPktns id
  | resetCongestionState => exact h.resetCongestionState hp
  | appLimited => exact h.advance ⟨rfl, id, id, rfl, rfl, rfl⟩
  | cwndLimited => exact h.advance ⟨rfl, id, id, rfl, rfl, rfl⟩

theorem step_inv (c : Conn) (i : Nat × Event) (h : Inv c) (ha : c.Allowed i) :
    Ends (fun stop => stop ≠ RateStop.wrap) Inv (c.step i) :=
  event_inv (h.later ha.1 ha.2.1) ha.2.2

/-- What is claimed of the sample that a frame leaves: it describes the newest packet that is acknowledged and counts. -/
def Claimed (c c' : Conn) (id : PktnsId) (fr : AckFrame) : Prop :=
  ∀ p, c.Newest id fr p → c'.Describes ((c.spaces id).sent p.pktNum) p c.lost

/-- In every run the samples describe the newest packet that counts as far as the delivery goes, and no subtraction wraps
around; but the bytes in flight and the lost bytes stay zero, so that a sample is wrong whenever there is such a packet. -/
theorem run_samples {is : List (Nat × Event)} (h : Guarded step Allowed init is) :
    Ends (fun stop => stop ≠ RateStop.wrap)
      (fun c => ∀ ts id fr l minRtt, c.Allowed (ts, .recvAck id fr l minRtt) →
        Ends (fun stop => stop ≠ RateStop.wrap)
          (fun c' => (c'.rst.rs.txInFlight = 0 ∧ c'.rst.rs.lost = 0) ∧
            (∀ p, c.Newest id fr p → c'.DescribesDelivery ((c.spaces id).sent p.pktNum) p ∧
              0 < ((c.spaces id).sent p.pktNum).inFlight) ∧
            (Claimed c c' id fr ↔ c.acks id fr = []))
          (c.step (ts, .recvAck id fr l minRtt)))
      (run step init is) := by
  apply (run_ends step_inv init_inv h).mono
  rintro c hinv ts id fr l minRtt ⟨hle, hlt, -⟩
  have hlater := hinv.later hle hlt
  apply (hlater.recvAck id fr l minRtt).mono
  rintro c' ⟨hinv', hdescribes⟩
  have hpos : ∀ p, c.Newest id fr p → 0 < ((c.spaces id).sent p.pktNum).inFlight := fun p hp =>
    (hlater.acks_recorded hp.1).inFlight (hdescribes p hp).1
  refine ⟨⟨hinv'.txInFlight, hinv'.lost⟩, fun p hp => ⟨(hdescribes p hp).2, hpos p hp⟩, fun hclaimed => ?_, fun hnil p hp => ?_⟩
  · cases hacks : c.acks id fr with
    | nil => rfl
    | cons p ps =>
        have hnewest : c.Newest id fr p := hlater.head_newest hacks
        have hzero := (hclaimed p hnewest).txInFlight
        rw [hinv'.txInFlight] at hzero
        exact absurd hzero (Nat.ne_of_lt (hpos p hnewest))
  · have hmem := hp.1
    rw [hnil] at hmem
    cases hmem

/-- A 1-RTT packet of 1200 bytes that is to be acknowledged. -/
def samplePkt (pktNum : Int) (ts : Nat) : Nat × Event :=
  (ts, .add .application pktNum .oneRtt 1200 ⟨true, true, true, false, false⟩)

def sampleAck (largestAck : Nat) : AckFrame :=
  ⟨none, largestAck, 0, 0, 0, []⟩

def sampleRecv (largestAck ts : Nat) : Nat × Event :=
  (ts, .recvAck .application (sampleAck largestAck) ⟨0, 1000000000, 1000000000, 500000000, 25000000, 0, 1200, true⟩ 1000)

/-- Of five packets the last one is acknowledged, so that the first two are lost. -/
def sampleRun : List (Nat × Event) :=
  [samplePkt 0 1, samplePkt 1 2, samplePkt 2 3, samplePkt 3 4, samplePkt 4 5, sampleRecv 4 1000]

theorem sampleRun_ok :
    ∃ c c', run step init sampleRun = .ok c ∧ c.step (sampleRecv 3 2000) = .ok c' ∧ c.now = 1000 ∧ c.lost = 2400 ∧
      (c.acks .application (sampleAck 3)).map Entry.pktNum = [3] ∧
      (c.spaces .application).sent 3 = ⟨⟨1, 1, 0, false, 4800, 0, 3⟩, 0, 0, 4800⟩ ∧
      (c'.rst.rs.delivered, c'.rst.rs.txInFlight, c'.rst.rs.lost) = (2400, 0, 0) := by
  refine ⟨_, _, ok_of_toOption (Option.mem_def.mpr (Option.some_get (by decide +kernel)).symm),
    ok_of_toOption (Option.mem_def.mpr (Option.some_get (by decide +kernel)).symm), ?_⟩
  decide +kernel

/-- The packet 3 is acknowledged next. -/
theorem run_samples_next :
    ∃ c c', run step init sampleRun = .ok c ∧ c.step (sampleRecv 3 2000) = .ok c' ∧ c'.rst.rs.delivered = 2400 ∧
      (Claimed c c' .application (sampleAck 3) ↔ c.acks .application (sampleAck 3) = []) := by
  obtain ⟨c, c', hrun, hstep, hnow, -, -, -, hrs⟩ := sampleRun_ok
  have hends := @run_samples sampleRun (by decide +kernel)
  rw [hrun] at hends
  have hends := hends 2000 .application (sampleAck 3) ⟨0, 1000000000, 1000000000, 500000000, 25000000, 0, 1200, true⟩ 1000
    ⟨by rw [hnow]; decide, by decide, trivial⟩
  rw [show c.step (2000, _) = _ from hstep] at hends
  exact ⟨c, c', hrun, hstep, (Prod.mk.inj hrs).1, hends.2.2⟩

/-- It made 4800 bytes in flight, and 2400 bytes were lost since, but the sample says zero. -/
theorem run_samples_zero :
    ¬ ∀ (is : List (Nat × Event)) (c c' : Conn) (ts : Nat) (id : PktnsId) (fr : AckFrame) (l : Loss) (minRtt : Nat),
      Guarded step Allowed init is → run step init is = .ok c → c.Allowed (ts, .recvAck id fr l minRtt) →
        c.step (ts, .recvAck id fr l minRtt) = .ok c' → Claimed c c' id fr := by
  intro h
  obtain ⟨c, c', hrun, hstep, hnow, -, hacks, hsent, hrs⟩ := sampleRun_ok
  have hclaimed := h sampleRun c c' 2000 .application (sampleAck 3) _ _ (by decide +kernel) hrun
    ⟨by rw [hnow]; decide, by decide, trivial⟩ hstep
  obtain ⟨p, hp, hnum⟩ := List.map_eq_singleton_iff.mp hacks
  have hdescribes := hclaimed p ⟨hp ▸ List.mem_cons_self, by rw [hp]; simp⟩
  rw [hnum, hsent] at hdescribes
  have htx := hdescribes.txInFlight
  simp only [Prod.mk.injEq] at hrs
  rw [hrs.2.1] at htx
  cases htx

end Conn

end Zngtcp2.RateSample
