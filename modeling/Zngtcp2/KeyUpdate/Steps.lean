import Zngtcp2.KeyUpdate.Model

namespace Zngtcp2.KeyUpdate

open Lib Lib.Run

/-- No assertion fails, and the result has the property. -/
def Safe {α : Type} (P : α → Prop) (x : Except Fault α) : Prop :=
  Ends (fun _ => False) P x

namespace Conn

/-- The updated keys are both there or both missing. They are there only while the current ones are
confirmed, and then the old one is gone. -/
structure Keys (c : Conn) : Prop where
  gen_eq : c.rxCkm.gen = c.txCkm.gen
  paired : c.newRxCkm.isSome = c.newTxCkm.isSome
  newRxGen : ∀ ckm ∈ c.newRxCkm, ckm.gen = c.txCkm.gen + 1
  newTxGen : ∀ ckm ∈ c.newTxCkm, ckm.gen = c.txCkm.gen + 1
  newOld : c.newRxCkm.isSome = true → c.oldRxCkm = none
  newConfirmed : c.newRxCkm.isSome = true → c.keyUpdateNotConfirmed = false
  old : ∀ ckm ∈ c.oldRxCkm, ckm.gen + 1 = c.txCkm.gen
  initiator : c.keyUpdateInitiator = true → c.keyUpdateNotConfirmed = true
  rxFirst : c.rxCkm.pktNum ≤ c.maxRxPktNum ∨ c.rxCkm.pktNum = maxPktNum
  txFirst : c.txCkm.pktNum ≤ c.lastPktNum + 1

variable {c c' : Conn}

/-- The connection after `conn_rotate_keys`. -/
structure Rotated (c : Conn) (pktNum : Int) (initiator : Bool) (c' : Conn) : Prop where
  keys : c'.txCkm.gen = c.txCkm.gen + 1
  rxGen : c'.rxCkm.gen = c.txCkm.gen + 1
  rxPktNum : c'.rxCkm.pktNum = pktNum
  txPktNum : c'.txCkm.pktNum = c.lastPktNum + 1
  old : c'.oldRxCkm = some c.rxCkm
  newRx : c'.newRxCkm = none
  newTx : c'.newTxCkm = none
  notConfirmed : c'.keyUpdateNotConfirmed = true
  initiator : c'.keyUpdateInitiator = initiator
  lastPktNum : c'.lastPktNum = c.lastPktNum
  maxRxPktNum : c'.maxRxPktNum = c.maxRxPktNum
  received : c'.received = c.received
  ppe : c'.ppe = none

theorem Keys.rotateKeys (h : c.Keys) {rx : CryptoKm} (hnew : c.newRxCkm = some rx) (hppe : c.ppe = none) (pktNum : Int)
    (initiator : Bool) : Safe (Rotated c pktNum initiator) (c.rotateKeys pktNum initiator) := by
  have hrx : c.newRxCkm.isSome = true := by rw [hnew, Option.isSome_some]
  have hconf := h.newConfirmed hrx
  obtain ⟨tx, htx⟩ := Option.isSome_iff_exists.mp (h.paired ▸ hrx)
  have hinit : c.keyUpdateInitiator = false := by
    cases hi : c.keyUpdateInitiator with
    | false => rfl
    | true =>
        have := h.initiator hi
        rw [hconf] at this
        cases this
  unfold Conn.rotateKeys
  rw [hnew, htx, h.newOld hrx, hppe]
  exact ⟨h.newTxGen tx htx, h.newRxGen rx hnew, rfl, rfl, rfl, rfl, rfl, rfl, by rw [hinit, Bool.false_or],
    rfl, rfl, rfl, rfl⟩

theorem Rotated.keys_sound (h : c.Keys) {pktNum : Int} {initiator : Bool} (hr : Rotated c pktNum initiator c')
    (hpktNum : pktNum ≤ c.maxRxPktNum ∨ pktNum = maxPktNum) : c'.Keys := by
  have hnone : ∀ ckm ∈ (none : Option CryptoKm), ckm.gen = c'.txCkm.gen + 1 := fun ckm hckm => by cases hckm
  refine ⟨hr.rxGen.trans hr.keys.symm, ?_, hr.newRx ▸ hnone, hr.newTx ▸ hnone, ?_, ?_, ?_, fun _ => hr.notConfirmed, ?_, ?_⟩
  · rw [hr.newRx, hr.newTx]
  · intro hsome
    rw [hr.newRx] at hsome
    cases hsome
  · intro hsome
    rw [hr.newRx] at hsome
    cases hsome
  · intro ckm hckm
    rw [hr.old, Option.mem_some_iff] at hckm
    rw [hr.keys, ← hckm, h.gen_eq]
  · rw [hr.rxPktNum, hr.maxRxPktNum]
    exact hpktNum
  · rw [hr.txPktNum, hr.lastPktNum]

end Conn

namespace Endpoint

variable (e : Endpoint)

def gen : Nat :=
  e.conn.txCkm.gen

/-- The endpoint has received an acknowledgement for a packet that it protected with its current key. -/
def AckReceived : Prop :=
  ∃ a ∈ e.accepted, ∃ pkt ∈ e.sent, a.1.largestAck = some pkt.hd.pktNum ∧ pkt.gen = e.gen

/-- The endpoint has written, into a packet under its current key, an acknowledgement for a packet that the
peer protected with the key of the same generation. -/
def AckWritten : Prop :=
  ∃ pkt ∈ e.conn.ppe.toList ++ e.sent, pkt.gen = e.gen ∧
    ∃ a ∈ e.accepted, pkt.largestAck = some a.1.hd.pktNum ∧ a.1.gen = e.gen

/-- What confirms the last key update; before the first one there is nothing to confirm. -/
def Settled : Prop :=
  match e.origin with
  | .handshake => e.gen = 0
  | .self => e.AckReceived
  | .peer => e.AckWritten

/-- The packet numbers from which on the current receive key is used begin with a packet that was accepted. -/
def RxCurrent : Prop :=
  e.conn.keyUpdateNotConfirmed = true → e.conn.rxCkm.pktNum = maxPktNum ∨
    ∃ a ∈ e.accepted, a.1.hd.pktNum = e.conn.rxCkm.pktNum ∧ a.1.gen = e.gen

structure Books : Prop where
  sent : Epochs (fun pkt : Pkt => pkt.hd.pktNum) Pkt.gen e.sent e.gen e.conn.txCkm.pktNum e.conn.lastPktNum
  pending : ∀ pkt ∈ e.conn.ppe, pkt.hd.pktNum = e.conn.lastPktNum + 1 ∧ pkt.gen = e.gen
  acks : ∀ pkt ∈ e.conn.ppe.toList ++ e.sent, ∀ n ∈ pkt.largestAck, n ∈ e.conn.received
  received : ∀ n ∈ e.conn.received, n ≤ e.conn.maxRxPktNum ∧ n < maxPktNum ∧ ∃ a ∈ e.accepted, a.1.hd.pktNum = n
  accepted : ∀ a ∈ e.accepted, a.2 = a.1.gen ∧ a.1.gen ≤ e.gen
  origin : e.conn.keyUpdateNotConfirmed = true → e.origin = if e.conn.keyUpdateInitiator then .self else .peer
  settled : e.conn.keyUpdateNotConfirmed = false → e.Settled

/-- What an endpoint knows of its peer. -/
structure Link (peer : Endpoint) : Prop where
  accepted : ∀ a ∈ e.accepted, a.1 ∈ peer.sent
  gen_le : e.gen ≤ peer.gen + 1
  ahead : peer.gen < e.gen → e.conn.keyUpdateNotConfirmed = true ∧ e.conn.keyUpdateInitiator = true

structure Inv (peer : Endpoint) : Prop where
  keys : e.conn.Keys
  books : e.Books
  rxCurrent : e.RxCurrent
  link : e.Link peer

/-- A step takes back no packet and no key update. -/
structure Grows (e' : Endpoint) : Prop where
  sent : e.sent ⊆ e'.sent
  gen_le : e.gen ≤ e'.gen

variable {e} {e' peer : Endpoint}

theorem Grows.same (hsent : e'.sent = e.sent) (hgen : e'.gen = e.gen) : e.Grows e' :=
  ⟨hsent ▸ List.Subset.refl _, hgen.ge⟩

/-- The peer's part of the invariant outlives a step of the endpoint. -/
theorem Inv.peer_grows (h : peer.Inv e) (hg : e.Grows e') : peer.Inv e' := by
  refine ⟨h.keys, h.books, h.rxCurrent, fun a ha => hg.sent (h.link.accepted a ha), ?_, ?_⟩
  · exact h.link.gen_le.trans (Nat.add_le_add_right hg.gen_le 1)
  · intro hlt
    exact h.link.ahead (Nat.lt_of_le_of_lt hg.gen_le hlt)

theorem gen_le_of_confirmed (h : e.Link peer) (hc : e.conn.keyUpdateNotConfirmed = false) : e.gen ≤ peer.gen := by
  by_contra hlt
  have := (h.ahead (Nat.lt_of_not_le hlt)).1
  rw [hc] at this
  cases this

/-- Two connections that differ only in what no key update depends on, and in the keys that are not in use. -/
structure Agree (c c' : Conn) : Prop where
  gen : c'.txCkm.gen = c.txCkm.gen
  txPktNum : c'.txCkm.pktNum = c.txCkm.pktNum
  rxPktNum : c'.rxCkm.pktNum = c.rxCkm.pktNum
  notConfirmed : c'.keyUpdateNotConfirmed = c.keyUpdateNotConfirmed
  initiator : c'.keyUpdateInitiator = c.keyUpdateInitiator
  lastPktNum : c'.lastPktNum = c.lastPktNum
  maxRxPktNum : c'.maxRxPktNum = c.maxRxPktNum
  received : c'.received = c.received
  ppe : c'.ppe = c.ppe

theorem Agree.refl (c : Conn) : Agree c c :=
  ⟨rfl, rfl, rfl, rfl, rfl, rfl, rfl, rfl, rfl⟩

theorem Inv.agree (h : e.Inv peer) {c : Conn} (hk : c.Keys) (ha : Agree e.conn c) :
    ({ e with conn := c } : Endpoint).Inv peer := by
  obtain ⟨⟨_, _, _, _, ⟨_, _, _, _⟩, ⟨_, _, _, _⟩, _, _, _, _, _, _, _, _, _, _, _, _⟩, _, _, _⟩ := e
  obtain ⟨_, _, _, _, ⟨_, _, _, _⟩, ⟨_, _, _, _⟩, _, _, _, _, _, _, _, _, _, _, _, _⟩ := c
  obtain ⟨rfl, rfl, rfl, rfl, rfl, rfl, rfl, rfl, rfl⟩ := ha
  obtain ⟨keys, ⟨sent, pending, acks, received, accepted, origin, settled⟩, rxCurrent, link⟩ := h
  refine ⟨hk, ⟨sent, pending, acks, received, accepted, origin, settled⟩, ?_, link.accepted, link.gen_le, link.ahead⟩
  exact rxCurrent

/-- The endpoint that follows on a connection with the same keys in use. -/
theorem keep_of_gen {c : Conn} {o : Origin} (hgen : c.txCkm.gen = e.gen) : e.keep c o = { e with conn := c } := by
  rw [keep, if_pos (show c.txCkm.gen = e.conn.txCkm.gen from hgen)]

theorem Settled.mono (h : e.Settled) (hgen : e'.gen = e.gen) (horigin : e'.origin = e.origin)
    (haccepted : e.accepted ⊆ e'.accepted) (hsent : e.sent ⊆ e'.sent)
    (hwritten : e.conn.ppe.toList ++ e.sent ⊆ e'.conn.ppe.toList ++ e'.sent) : e'.Settled := by
  unfold Settled at h ⊢
  rw [horigin]
  cases ho : e.origin with
  | handshake =>
      rw [ho] at h
      exact hgen.trans h
  | self =>
      rw [ho] at h
      obtain ⟨a, ha, pkt, hpkt, hack, heq⟩ := h
      exact ⟨a, haccepted ha, pkt, hsent hpkt, hack, heq.trans hgen.symm⟩
  | peer =>
      rw [ho] at h
      obtain ⟨pkt, hpkt, heq, a, ha, hack, haeq⟩ := h
      exact ⟨pkt, hwritten hpkt, heq.trans hgen.symm, a, haccepted ha, hack, haeq.trans hgen.symm⟩

/-- What a step has to establish. -/
def Next (e peer e' : Endpoint) : Prop :=
  e'.Inv peer ∧ e.Grows e'

theorem Inv.next_agree (h : e.Inv peer) {c : Conn} (hk : c.Keys) (ha : Agree e.conn c) :
    Next e peer { e with conn := c } :=
  ⟨h.agree hk ha, .same rfl ha.gen⟩

theorem Inv.skip (h : e.Inv peer) (hppe : e.conn.ppe = none) : Next e peer { e with conn := e.conn.skipPkt } := by
  have hle : e.conn.lastPktNum ≤ e.conn.lastPktNum + 1 := Int.le_add_one le_rfl
  refine ⟨⟨?_, ?_, h.rxCurrent, h.link.accepted, h.link.gen_le, h.link.ahead⟩, .same rfl rfl⟩
  · exact { h.keys with txFirst := h.keys.txFirst.trans (Int.add_le_add_right hle 1) }
  · refine ⟨h.books.sent.skip hle, ?_, h.books.acks, h.books.received, h.books.accepted, h.books.origin, h.books.settled⟩
    intro pkt hpkt
    rw [Conn.skipPkt, hppe] at hpkt
    cases hpkt

theorem Inv.finish (h : e.Inv peer) (hppe : e.conn.ppe.isSome = true) : Next e peer e.finish := by
  obtain ⟨pkt, hpkt⟩ := Option.isSome_iff_exists.mp hppe
  obtain ⟨hnum, hgen⟩ := h.books.pending pkt hpkt
  have hsent : e.finish.sent = pkt :: e.sent := by
    rw [Endpoint.finish, hpkt]
    rfl
  have hall : e.finish.conn.ppe.toList ++ e.finish.sent = e.conn.ppe.toList ++ e.sent := by
    rw [hsent, hpkt]
    rfl
  have hsub : e.sent ⊆ e.finish.sent := by
    rw [hsent]
    exact List.subset_cons_self pkt e.sent
  have hlt : e.conn.lastPktNum < pkt.hd.pktNum := by
    rw [hnum]
    exact Int.lt_succ e.conn.lastPktNum
  refine ⟨⟨?_, ?_, h.rxCurrent, h.link.accepted, h.link.gen_le, h.link.ahead⟩, hsub, le_rfl⟩
  · exact { h.keys with txFirst := h.keys.txFirst.trans (Int.add_le_add_right (Int.le_add_one le_rfl) 1) }
  · refine ⟨?_, fun pkt hpkt => (Option.not_mem_none pkt hpkt).elim, ?_, h.books.received, h.books.accepted,
      h.books.origin, ?_⟩
    · rw [hsent]
      have happ := h.books.sent.append hlt hgen
      rw [hnum] at happ
      exact happ
    · rw [hall]
      exact h.books.acks
    · intro hc
      exact (h.books.settled hc).mono rfl rfl (List.Subset.refl _) hsub (hall ▸ List.Subset.refl _)

variable (e) in
/-- The endpoint with a packet begun. -/
def begun (pkt : Pkt) : Endpoint :=
  { e with conn := { e.conn with ppe := some pkt } }

theorem Inv.begun (h : e.Inv peer) (hppe : e.conn.ppe = none) {pkt : Pkt} (hnum : pkt.hd.pktNum = e.conn.lastPktNum + 1)
    (hgen : pkt.gen = e.gen) (hack : ∀ n ∈ pkt.largestAck, n ∈ e.conn.received) :
    (e.begun pkt).Inv peer := by
  refine ⟨{ h.keys with }, ?_, h.rxCurrent, h.link.accepted, h.link.gen_le, h.link.ahead⟩
  refine ⟨h.books.sent, ?_, ?_, h.books.received, h.books.accepted, h.books.origin, ?_⟩
  · intro p hp
    cases hp
    exact ⟨hnum, hgen⟩
  · intro p hp
    rcases List.mem_cons.mp hp with rfl | hp
    · exact hack
    · exact h.books.acks p (List.mem_append_right _ hp)
  · intro hc
    refine (h.books.settled hc).mono rfl rfl (List.Subset.refl _) (List.Subset.refl _) ?_
    rw [hppe]
    exact List.subset_cons_self pkt e.sent

/-- The endpoint confirms its peer's key update when it acknowledges a packet under the new key. -/
theorem Inv.confirmRemote (hp : peer.Inv e) (h : e.Inv peer) {pkt : Pkt} (hppe : e.conn.ppe = some pkt) {n : Int}
    (hn : pkt.largestAck = some n) (ts : Nat) :
    ({ e with conn := e.conn.handleUnconfirmedKeyUpdateFromRemote n ts } : Endpoint).Inv peer := by
  unfold Conn.handleUnconfirmedKeyUpdateFromRemote
  split
  next => exact h
  next hcond =>
    simp only [Bool.or_eq_true, Bool.not_eq_true', decide_eq_true_eq, not_or, Bool.not_eq_false, Bool.not_eq_true,
      Int.not_lt] at hcond
    obtain ⟨⟨hnot, hinit⟩, hle⟩ := hcond
    have hmem : pkt ∈ e.conn.ppe.toList ++ e.sent := by
      rw [hppe]
      exact List.mem_cons_self
    obtain ⟨-, hlt, a, ha, hnum⟩ := h.books.received n (h.books.acks pkt hmem n hn)
    obtain ⟨haccepted, hagen⟩ := h.books.accepted a ha
    have hagen : a.1.gen = e.gen := by
      rcases h.rxCurrent hnot with hmax | ⟨b, hb, hbnum, hbgen⟩
      · rw [hmax] at hle
        exact absurd hlt (Int.not_lt.mpr hle)
      · refine le_antisymm hagen (hbgen ▸ ?_)
        apply hp.books.sent.mono b.1 (h.link.accepted b hb) a.1 (h.link.accepted a ha)
        rw [hbnum, hnum]
        exact hle
    have horigin : e.origin = .peer := by
      have := h.books.origin hnot
      rwa [hinit] at this
    refine ⟨{ h.keys with newConfirmed := fun _ => rfl, initiator := fun hi => ?_ }, ?_, fun hc => Bool.noConfusion hc,
      h.link.accepted, h.link.gen_le, fun hlt => ?_⟩
    · rw [hinit] at hi
      cases hi
    · refine ⟨h.books.sent, h.books.pending, h.books.acks, h.books.received, h.books.accepted,
        fun hc => Bool.noConfusion hc, fun _ => ?_⟩
      unfold Settled
      rw [show (Endpoint.mk _ e.sent e.accepted e.origin).origin = .peer from horigin]
      exact ⟨pkt, hmem, (h.books.pending pkt hppe).2, a, ha, by rw [hn, hnum], hagen⟩
    · have := (h.link.ahead hlt).2
      rw [hinit] at this
      cases this

theorem Inv.start (hp : peer.Inv e) (h : e.Inv peer) (hppe : e.conn.ppe = none) {largestAck : Option Int}
    (hack : ∀ n ∈ largestAck, n ∈ e.conn.received) (ts : Nat) :
    Next e peer { e with conn := e.conn.beginPkt largestAck ts } := by
  let pkt : Pkt := ⟨⟨.oneRtt, e.conn.lastPktNum + 1, e.conn.txCkm.keyPhaseOne⟩, e.gen, largestAck⟩
  have hbegun : (e.begun pkt).Inv peer := h.begun hppe rfl rfl hack
  have hpeer : peer.Inv (e.begun pkt) := hp.peer_grows (.same rfl rfl)
  cases largestAck with
  | none => exact ⟨hbegun, .same rfl rfl⟩
  | some n =>
      refine ⟨Inv.confirmRemote hpeer hbegun rfl rfl ts, .same rfl ?_⟩
      unfold Conn.beginPkt Conn.handleUnconfirmedKeyUpdateFromRemote gen
      dsimp only
      split <;> rfl

end Endpoint

end Zngtcp2.KeyUpdate
