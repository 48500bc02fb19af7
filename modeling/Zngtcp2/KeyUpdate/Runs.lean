import Zngtcp2.KeyUpdate.Calls

namespace Zngtcp2.KeyUpdate

open Lib Lib.Run

namespace Endpoint

/-- An endpoint that has installed its first keys and has not updated them yet; it may have sent and
received packets. -/
structure Begins (e peer : Endpoint) : Prop where
  rxGen : e.conn.rxCkm.gen = 0
  rxPktNum : e.conn.rxCkm.pktNum = -1
  txGen : e.conn.txCkm.gen = 0
  txPktNum : e.conn.txCkm.pktNum = -1
  newRx : e.conn.newRxCkm = none
  newTx : e.conn.newTxCkm = none
  oldRx : e.conn.oldRxCkm = none
  confirmed : e.conn.keyUpdateNotConfirmed = false
  initiator : e.conn.keyUpdateInitiator = false
  ppe : e.conn.ppe = none
  origin : e.origin = .handshake
  lastPktNum : -1 ≤ e.conn.lastPktNum
  maxRxPktNum : -1 ≤ e.conn.maxRxPktNum
  sent : ∀ pkt ∈ e.sent, pkt.gen = 0 ∧ pkt.hd.pktNum ≤ e.conn.lastPktNum ∧ ∀ n ∈ pkt.largestAck, n ∈ e.conn.received
  unique : ∀ p ∈ e.sent, ∀ q ∈ e.sent, p.hd.pktNum = q.hd.pktNum → p = q
  accepted : ∀ a ∈ e.accepted, a.1 ∈ peer.sent ∧ a.1.gen = 0 ∧ a.2 = 0
  received : ∀ n ∈ e.conn.received, n ≤ e.conn.maxRxPktNum ∧ n < maxPktNum ∧ ∃ a ∈ e.accepted, a.1.hd.pktNum = n

variable {e e' peer : Endpoint}

theorem Begins.inv (h : e.Begins peer) : e.Inv peer := by
  have hgen : e.gen = 0 := h.txGen
  refine ⟨⟨h.rxGen.trans h.txGen.symm, ?_, ?_, ?_, fun _ => h.oldRx, fun _ => h.confirmed, ?_, ?_, Or.inl ?_, ?_⟩, ?_, ?_, ?_⟩
  · rw [h.newRx, h.newTx]
  · rw [h.newRx]
    exact fun ckm hckm => (Option.not_mem_none ckm hckm).elim
  · rw [h.newTx]
    exact fun ckm hckm => (Option.not_mem_none ckm hckm).elim
  · rw [h.oldRx]
    exact fun ckm hckm => (Option.not_mem_none ckm hckm).elim
  · intro hi
    rw [h.initiator] at hi
    cases hi
  · exact h.rxPktNum.trans_le h.maxRxPktNum
  · exact h.txPktNum.trans_le (h.lastPktNum.trans (Int.le_add_one le_rfl))
  · refine ⟨?_, ?_, ?_, h.received, ?_, ?_, ?_⟩
    · refine ⟨fun p hp => (h.sent p hp).2.1, fun p hp => ((h.sent p hp).1.trans hgen.symm).le, ?_, h.unique, ?_⟩
      · intro p hp q hq _
        exact ((h.sent p hp).1.trans (h.sent q hq).1.symm).le
      · exact fun p hp _ => (h.sent p hp).1.trans hgen.symm
    · rw [h.ppe]
      exact fun pkt hpkt => (Option.not_mem_none pkt hpkt).elim
    · rw [h.ppe]
      exact fun pkt hpkt => (h.sent pkt hpkt).2.2
    · intro a ha
      obtain ⟨-, hagen, hkey⟩ := h.accepted a ha
      exact ⟨hkey.trans hagen.symm, hagen.trans_le (Nat.zero_le _)⟩
    · intro hc
      rw [h.confirmed] at hc
      cases hc
    · intro _
      unfold Settled
      rw [h.origin]
      exact hgen
  · intro hc
    rw [h.confirmed] at hc
    cases hc
  · refine ⟨fun a ha => (h.accepted a ha).1, hgen.trans_le (Nat.zero_le _), fun hlt => ?_⟩
    rw [hgen] at hlt
    exact absurd hlt (Nat.not_lt_zero _)

instance (e : Endpoint) : Decidable e.AckReceived :=
  inferInstanceAs (Decidable (∃ a ∈ e.accepted, ∃ pkt ∈ e.sent, a.1.largestAck = some pkt.hd.pktNum ∧ pkt.gen = e.gen))

/-- The endpoint has sent, under its current key, an acknowledgement for a packet that the peer protected
with the key of the same generation. -/
def AckSent (e : Endpoint) : Prop :=
  ∃ pkt ∈ e.sent, pkt.gen = e.gen ∧ ∃ a ∈ e.accepted, pkt.largestAck = some a.1.hd.pktNum ∧ a.1.gen = e.gen

/-- There was no key update, or the last one is confirmed: by an acknowledgement that was received where the
endpoint started it, and by one that was sent where the peer did. -/
def LastConfirmed (e : Endpoint) : Prop :=
  match e.origin with
  | .handshake => e.gen = 0
  | .self => e.AckReceived
  | .peer => e.AckSent

theorem Inv.lastConfirmed (h : e.Inv peer) (hppe : e.conn.ppe = none) (hc : e.conn.keyUpdateNotConfirmed = false) :
    e.LastConfirmed := by
  have hset := h.books.settled hc
  unfold Settled AckWritten at hset
  rw [hppe] at hset
  exact hset

theorem initiate_notConfirmed (hc : e.conn.keyUpdateNotConfirmed = true) (pto ts : Nat) : e.initiate pto ts = .ok e := by
  unfold initiate Conn.initiateKeyUpdate
  rw [hc]
  simp only [Bool.or_true, Bool.true_or, if_true]
  rfl

theorem prepare_notConfirmed (hc : e.conn.keyUpdateNotConfirmed = true) (pto ts : Nat) : e.prepare pto ts = .ok e := by
  have hinstall := installNewKeys_notConfirmed hc e.conn.confirmedTs pto ts e.conn.rxCkm e.conn.txCkm
  have hinitiate : e.conn.initiateKeyUpdate pto ts = .ok none := by
    unfold Conn.initiateKeyUpdate
    rw [hc]
    simp only [Bool.or_true, Bool.true_or, if_true]
  unfold prepare Conn.prepareKeyUpdate
  dsimp only
  rw [hinstall, hinitiate]
  split
  next => rfl
  next => exact congrArg Except.ok (keep_of_gen rfl)

end Endpoint

/-- A call by which an endpoint itself updates its keys. -/
def Act.Starts : Act → Prop
  | .prepare _ _ | .initiate _ _ => True
  | _ => False

namespace Net

/-- The step starts a key update. -/
def Starts (n : Net) (op : Op) (n' : Net) : Prop :=
  op.act.Starts ∧ (n'.ep op.role).gen ≠ (n.ep op.role).gen

def Begins (n : Net) : Prop :=
  ∀ r, (n.ep r).Begins (n.ep r.peer)

def Inv (n : Net) : Prop :=
  ∀ r, (n.ep r).Inv (n.ep r.peer)

variable {n n' : Net} {op : Op}

theorem Inv.step (h : n.Inv) (hop : n.Legal op) : Safe Inv (n.step op) := by
  have hpeer : (n.ep op.role.peer).Inv (n.ep op.role) := by
    have := h op.role.peer
    rwa [Role.peer_peer] at this
  apply Ends.bind (Endpoint.Inv.act hpeer (h op.role) hop)
  rintro e ⟨hinv, hgrows⟩ r
  rcases Role.eq_or_peer op.role r with rfl | rfl
  · rw [ep_put_self, ep_put_peer]
    exact hinv
  · rw [ep_put_peer, Role.peer_peer, ep_put_self]
    exact hpeer.peer_grows hgrows

theorem Inv.starts (h : n.Inv) (hop : n.Legal op) (hstep : n.step op = .ok n') (hs : n.Starts op n') :
    (n.ep op.role).LastConfirmed := by
  obtain ⟨e, he, hput⟩ := bind_ok hstep
  cases hput
  obtain ⟨hact, hne⟩ := hs
  rw [ep_put_self] at hne
  obtain ⟨role, act⟩ := op
  have hppe : (n.ep role).conn.ppe = none := by
    cases act with
    | prepare | initiate => exact hop
    | confirm | discardEarly | skip | start | finish | recv => exact hact.elim
  refine (h role).lastConfirmed hppe ?_
  rw [← Bool.not_eq_true]
  intro hc
  have hsame : (n.ep role).act act = .ok (n.ep role) := by
    cases act with
    | prepare pto ts => exact Endpoint.prepare_notConfirmed hc pto ts
    | initiate pto ts => exact Endpoint.initiate_notConfirmed hc pto ts
    | confirm | discardEarly | skip | start | finish | recv => exact hact.elim
  rw [hsame] at he
  cases he
  exact hne rfl

/-- What a key update is for: the endpoints stay within one generation of each other, and packets are opened
with the key that sealed them. -/
structure InStep (n : Net) : Prop where
  gen_le : ∀ r, (n.ep r).gen ≤ (n.ep r.peer).gen + 1
  accepted : ∀ r, ∀ a ∈ (n.ep r).accepted, a.1 ∈ (n.ep r.peer).sent ∧ a.2 = a.1.gen
  old : ∀ r, (n.ep r).conn.newRxCkm.isSome = true → (n.ep r).conn.oldRxCkm = none

theorem Inv.inStep (h : n.Inv) : n.InStep :=
  ⟨fun r => (h r).link.gen_le, fun r a ha => ⟨(h r).link.accepted a ha, ((h r).books.accepted a ha).1⟩,
    fun r => (h r).keys.newOld⟩

/-- No assertion fails in any run of two endpoints, they stay in step, and neither starts a key update before its
last one is confirmed. -/
theorem run_keyUpdates {n₀ : Net} (hbegins : n₀.Begins) {ops : List Op} (hops : Guarded step Legal n₀ ops) :
    ∃ n, run step n₀ ops = .ok n ∧ n.InStep ∧
      ∀ op n', n.Legal op → n.step op = .ok n' → n.Starts op n' → (n.ep op.role).LastConfirmed := by
  have hrun : Safe Inv (run step n₀ ops) :=
    run_ends (fun n op h hop => Inv.step h hop) (fun r => (hbegins r).inv) hops
  cases h : run step n₀ ops with
  | error e =>
      rw [h] at hrun
      exact hrun.elim
  | ok n =>
      rw [h] at hrun
      exact ⟨n, rfl, Inv.inStep hrun, fun op n' hop hstep hs => Inv.starts hrun hop hstep hs⟩

def freshConn (server : Bool) : Conn :=
  { server := server
    handshakeConfirmed := true
    keyUpdateNotConfirmed := false
    keyUpdateInitiator := false
    rxCkm := ⟨0, false, -1, 0⟩
    txCkm := ⟨0, false, -1, 0⟩
    newRxCkm := none
    newTxCkm := none
    oldRxCkm := none
    confirmedTs := none
    earlyCkm := false
    maxEncryption := 2 ^ 23
    maxDecryptionFailure := 2 ^ 52
    decryptionFailureCount := 0
    lastPktNum := -1
    maxRxPktNum := -1
    received := []
    ppe := none }

/-- Two endpoints that have sent nothing yet. -/
def fresh : Net :=
  ⟨⟨freshConn false, [], [], .handshake⟩, ⟨freshConn true, [], [], .handshake⟩⟩

theorem fresh_begins : fresh.Begins := by
  rintro (_ | _)
  · exact ⟨rfl, rfl, rfl, rfl, rfl, rfl, rfl, rfl, rfl, rfl, rfl, le_rfl, le_rfl, List.forall_mem_nil _,
      List.forall_mem_nil _, List.forall_mem_nil _, List.forall_mem_nil _⟩
  · exact ⟨rfl, rfl, rfl, rfl, rfl, rfl, rfl, rfl, rfl, rfl, rfl, le_rfl, le_rfl, List.forall_mem_nil _,
      List.forall_mem_nil _, List.forall_mem_nil _, List.forall_mem_nil _⟩

/-- The client's first packet under its second key. -/
def firstUpdated : Pkt :=
  ⟨⟨.oneRtt, 0, true⟩, 1, none⟩

/-- The client updates its keys, and the server acknowledges the first packet under the new ones. The
acknowledgement is lost. -/
def lostAck : List Op :=
  [⟨.client, .prepare 1 0⟩, ⟨.server, .prepare 1 0⟩, ⟨.client, .initiate 1 0⟩, ⟨.client, .start none 1⟩, ⟨.client, .finish⟩,
    ⟨.server, .recv firstUpdated.hd (some firstUpdated) 2⟩, ⟨.server, .start (some 0) 3⟩, ⟨.server, .finish⟩,
    ⟨.server, .prepare 1 4⟩]

theorem run_keyUpdates_lostAck :
    ∃ n, run step fresh lostAck = .ok n ∧ n.InStep ∧
      ∀ op n', n.Legal op → n.step op = .ok n' → n.Starts op n' → (n.ep op.role).LastConfirmed :=
  run_keyUpdates fresh_begins (by decide +kernel)

/-- The server then updates the keys again, without an acknowledgement for any of its packets. So does the
client with the first update of all. And an update while a packet is being written fails an assertion. -/
theorem starts_without_ack :
    (∃ n n', run step fresh lostAck = .ok n ∧ n.step ⟨.server, .initiate 1 10⟩ = .ok n' ∧ n.Starts ⟨.server, .initiate 1 10⟩ n' ∧
      ¬(n.ep .server).AckReceived) ∧
    (∃ n n', run step fresh (lostAck.take 2) = .ok n ∧ n.step ⟨.client, .initiate 1 0⟩ = .ok n' ∧
      n.Starts ⟨.client, .initiate 1 0⟩ n' ∧ ¬(n.ep .client).AckReceived) ∧
    run step fresh [⟨.client, .prepare 1 0⟩, ⟨.client, .start none 1⟩, ⟨.client, .initiate 1 1⟩] = .error .assertion := by
  refine ⟨⟨_, _, rfl, rfl, ⟨trivial, ?_⟩, ?_⟩, ⟨_, _, rfl, rfl, ⟨trivial, ?_⟩, ?_⟩, ?_⟩
  all_goals decide +kernel

end Net

end Zngtcp2.KeyUpdate
