import Zngtcp2.KeyUpdate.Steps

namespace Zngtcp2.KeyUpdate

open Lib Lib.Run

namespace Endpoint

variable {e e' peer : Endpoint} {c c' : Conn}

/-- The rotation of the keys closes the books of the last generation. -/
theorem Books.rotated (h : e.Books) (hppe : e.conn.ppe = none) {pktNum : Int} {initiator : Bool}
    (hr : Conn.Rotated e.conn pktNum initiator c') :
    (e.keep c' (if initiator then .self else .peer)).Books := by
  have hne : c'.txCkm.gen ≠ e.conn.txCkm.gen := by
    rw [hr.keys]
    exact Nat.succ_ne_self _
  have hkeep : e.keep c' (if initiator then .self else .peer) =
      { e with conn := c', origin := if initiator then .self else .peer } := by
    rw [keep, if_neg hne]
  have hgen : e.gen ≤ c'.txCkm.gen := by
    rw [hr.keys]
    exact Nat.le_succ _
  rw [hkeep]
  constructor
  · have hadv := h.sent.advance hgen
    rw [← hr.txPktNum] at hadv
    rw [← hr.lastPktNum] at hadv
    exact hadv
  · intro pkt hpkt
    rw [hr.ppe] at hpkt
    cases hpkt
  · have hacks := h.acks
    rw [hppe, ← hr.ppe, ← hr.received] at hacks
    exact hacks
  · have hrec := h.received
    rw [← hr.received, ← hr.maxRxPktNum] at hrec
    exact hrec
  · exact fun a ha => ⟨(h.accepted a ha).1, (h.accepted a ha).2.trans hgen⟩
  · intro _
    rw [hr.initiator]
  · intro hc
    rw [hr.notConfirmed] at hc
    cases hc

theorem keep_gen (e : Endpoint) (c : Conn) (o : Origin) : (e.keep c o).gen = c.txCkm.gen :=
  rfl

/-- A confirmed endpoint starts a key update of its own. -/
theorem Inv.rotatedSelf (h : e.Inv peer) (hppe : e.conn.ppe = none) (hc : e.conn.keyUpdateNotConfirmed = false)
    (hr : Conn.Rotated e.conn maxPktNum true c') : Next e peer (e.keep c' .self) := by
  have hle := gen_le_of_confirmed h.link hc
  refine ⟨⟨hr.keys_sound h.keys (Or.inr rfl), h.books.rotated hppe hr, fun _ => Or.inl hr.rxPktNum, ?_⟩,
    List.Subset.refl _, ?_⟩
  · refine ⟨h.link.accepted, ?_, fun _ => ⟨hr.notConfirmed, hr.initiator⟩⟩
    rw [keep_gen, hr.keys]
    exact Nat.succ_le_succ hle
  · rw [keep_gen, hr.keys]
    exact Nat.le_succ _

/-- The endpoint that has accepted a packet. -/
def accept (e : Endpoint) (pkt : Pkt) : Endpoint :=
  { e with conn := e.conn.commitRecvPktNum pkt.hd.pktNum, accepted := (pkt, pkt.gen) :: e.accepted }

theorem Books.accept (h : e.Books) {pkt : Pkt} (hgen : pkt.gen ≤ e.gen) (hnum : pkt.hd.pktNum < maxPktNum) :
    (e.accept pkt).Books := by
  have hmem : ∀ n ∈ e.conn.received, n ∈ (e.accept pkt).conn.received := fun n hn => List.mem_cons_of_mem _ hn
  refine ⟨h.sent, h.pending, fun p hp n hn => hmem n (h.acks p hp n hn), ?_, ?_, h.origin, ?_⟩
  · intro n hn
    rcases List.mem_cons.mp hn with rfl | hn
    · exact ⟨le_max_right _ _, hnum, _, List.mem_cons_self, rfl⟩
    · obtain ⟨hle, hlt, a, ha, heq⟩ := h.received n hn
      exact ⟨hle.trans (le_max_left _ _), hlt, a, List.mem_cons_of_mem _ ha, heq⟩
  · intro a ha
    rcases List.mem_cons.mp ha with rfl | ha
    · exact ⟨rfl, hgen⟩
    · exact h.accepted a ha
  · intro hc
    exact (h.settled hc).mono rfl rfl (List.subset_cons_self _ _) (List.Subset.refl _) (List.Subset.refl _)

theorem RxCurrent.accept (h : e.RxCurrent) (pkt : Pkt) : (e.accept pkt).RxCurrent := by
  intro hc
  rcases h hc with hmax | ⟨a, ha, hnum, hgen⟩
  · exact Or.inl hmax
  · exact Or.inr ⟨a, List.mem_cons_of_mem _ ha, hnum, hgen⟩

theorem keys_commit (h : c.Keys) (pktNum : Int) : (c.commitRecvPktNum pktNum).Keys :=
  { h with rxFirst := h.rxFirst.imp_left fun hle => hle.trans (le_max_left _ _) }

theorem rotated_commit {pktNum : Int} {initiator : Bool} (hr : Conn.Rotated c pktNum initiator c') (n : Int) :
    Conn.Rotated (c.commitRecvPktNum n) pktNum initiator (c'.commitRecvPktNum n) := by
  refine { hr with maxRxPktNum := ?_, received := ?_ }
  · exact congrArg (fun m => max m n) hr.maxRxPktNum
  · exact congrArg (List.cons n) hr.received

/-- A packet of the next generation: the keys rotate and the packet is recorded. -/
theorem Inv.rotatedPeer (hp : peer.Inv e) (h : e.Inv peer) (hppe : e.conn.ppe = none) {pkt : Pkt} (hpkt : pkt ∈ peer.sent)
    (hgen : pkt.gen = e.gen + 1) (hnum : pkt.hd.pktNum < maxPktNum)
    (hr : Conn.Rotated e.conn pkt.hd.pktNum false c') : Next e peer ((e.keep c' .peer).accept pkt) := by
  have hgen' : pkt.gen = c'.txCkm.gen := hgen.trans hr.keys.symm
  have hle : pkt.gen ≤ peer.gen := hp.books.sent.epoch_le pkt hpkt
  refine ⟨⟨?_, (h.books.rotated hppe hr).accept hgen'.le hnum, ?_, ?_⟩, List.Subset.refl _, ?_⟩
  · exact (rotated_commit hr pkt.hd.pktNum).keys_sound (keys_commit h.keys _) (Or.inl (le_max_right _ _))
  · exact fun _ => Or.inr ⟨_, List.mem_cons_self, hr.rxPktNum.symm, hgen'⟩
  · have hgen_le : c'.txCkm.gen ≤ peer.gen := hgen' ▸ hle
    refine ⟨?_, hgen_le.trans (Nat.le_succ _), fun hlt => absurd hgen_le (Nat.not_le.mpr hlt)⟩
    intro a ha
    rcases List.mem_cons.mp ha with rfl | ha
    · exact hpkt
    · exact h.link.accepted a ha
  · exact (Nat.le_succ e.gen).trans hr.keys.ge

/-- A packet of a generation that the endpoint has reached. -/
theorem Inv.accept (h : e.Inv peer) {pkt : Pkt} (hpkt : pkt ∈ peer.sent) (hgen : pkt.gen ≤ e.gen)
    (hnum : pkt.hd.pktNum < maxPktNum) : (e.accept pkt).Inv peer := by
  refine ⟨keys_commit h.keys _, h.books.accept hgen hnum, h.rxCurrent.accept pkt, ?_, h.link.gen_le, h.link.ahead⟩
  intro a ha
  rcases List.mem_cons.mp ha with rfl | ha
  · exact hpkt
  · exact h.link.accepted a ha

/-- The endpoint confirms its own key update when a packet under the new key is acknowledged. -/
theorem Inv.recvFrames (hp : peer.Inv e) (h : e.Inv peer) {a : Pkt × Nat} (ha : a ∈ e.accepted) {ts : Nat}
    (hrecv : e.conn.recvFrames a.1 ts = some c) : ({ e with conn := c } : Endpoint).Inv peer := by
  unfold Conn.recvFrames at hrecv
  split at hrecv
  next =>
    cases hrecv
    exact h
  next n hn =>
    unfold Conn.recvAck at hrecv
    split_ifs at hrecv with hlast hcond
    · cases hrecv
      simp only [Bool.and_eq_true, decide_eq_true_eq] at hcond
      obtain ⟨⟨hnot, hinit⟩, hle⟩ := hcond
      have hacked : n ∈ peer.conn.received :=
        hp.books.acks a.1 (List.mem_append_right _ (h.link.accepted a ha)) n hn
      obtain ⟨-, -, b, hb, hnum⟩ := hp.books.received n hacked
      have hbsent := hp.link.accepted b hb
      have hbgen : b.1.gen = e.gen := h.books.sent.current b.1 hbsent (hnum.symm ▸ hle)
      have hgen_le : e.gen ≤ peer.gen := hbgen ▸ (hp.books.accepted b hb).2
      have horigin : e.origin = .self := by
        have := h.books.origin hnot
        rwa [hinit] at this
      refine ⟨{ h.keys with newConfirmed := fun _ => rfl, initiator := fun hi => Bool.noConfusion hi }, ?_,
        fun hc => Bool.noConfusion hc, h.link.accepted, h.link.gen_le, fun hlt => absurd hgen_le (Nat.not_le.mpr hlt)⟩
      refine ⟨h.books.sent, h.books.pending, h.books.acks, h.books.received, h.books.accepted,
        fun hc => Bool.noConfusion hc, fun _ => ?_⟩
      unfold Settled
      rw [show (Endpoint.mk _ e.sent e.accepted e.origin).origin = .self from horigin]
      exact ⟨a, ha, b.1, hbsent, by rw [hn, hnum], hbgen⟩
    · cases hrecv
      exact h

/-- The packet numbers of the current key may begin earlier than was known. -/
theorem Inv.lowerCurrent (h : e.Inv peer) {a : Pkt × Nat} (ha : a ∈ e.accepted) (hmem : a.1.hd.pktNum ∈ e.conn.received)
    (hgen : a.1.gen = e.gen) :
    ({ e with conn := { e.conn with
        rxCkm := { e.conn.rxCkm with pktNum := min e.conn.rxCkm.pktNum a.1.hd.pktNum } } } : Endpoint).Inv peer := by
  have hle := (h.books.received _ hmem).1
  refine ⟨{ h.keys with rxFirst := Or.inl ((min_le_right _ _).trans hle) }, { h.books with }, ?_, h.link.accepted,
    h.link.gen_le, h.link.ahead⟩
  intro hc
  rcases min_choice e.conn.rxCkm.pktNum a.1.hd.pktNum with hmin | hmin
  · rcases h.rxCurrent hc with hmax | ⟨b, hb, hnum, hbgen⟩
    · exact Or.inl (hmin.trans hmax)
    · exact Or.inr ⟨b, hb, hnum.trans hmin.symm, hbgen⟩
  · exact Or.inr ⟨a, ha, hmin.symm, hgen⟩

theorem Inv.lowerOld (h : e.Inv peer) {ckm : CryptoKm} (hold : e.conn.oldRxCkm = some ckm) (n : Int) :
    ({ e with conn := { e.conn with oldRxCkm := some { ckm with pktNum := n } } } : Endpoint).Inv peer := by
  refine ⟨{ h.keys with newOld := fun hnew => ?_, old := fun k hk => ?_ }, { h.books with }, h.rxCurrent, h.link.accepted,
    h.link.gen_le, h.link.ahead⟩
  · have := h.keys.newOld hnew
    rw [hold] at this
    cases this
  · cases hk
    exact h.keys.old ckm hold

end Endpoint

namespace Endpoint

variable {e peer : Endpoint}

theorem Inv.next_self (h : e.Inv peer) : Next e peer e :=
  ⟨h, .same rfl rfl⟩

/-- A call that starts a key update does so while the last one is confirmed and no packet is being written. -/
theorem Inv.initiateKeyUpdate (h : e.Inv peer) (hppe : e.conn.ppe = none) (pto ts : Nat) :
    Safe (fun r => ∀ c ∈ r, e.conn.keyUpdateNotConfirmed = false ∧ Conn.Rotated e.conn maxPktNum true c)
      (e.conn.initiateKeyUpdate pto ts) := by
  unfold Conn.initiateKeyUpdate
  split
  next => exact fun c hc => Option.not_mem_none c hc |>.elim
  next hcond =>
    simp only [Bool.or_eq_true, Bool.not_eq_true', not_or, Bool.not_eq_false, Bool.not_eq_true, Option.isNone_eq_false_iff]
      at hcond
    obtain ⟨⟨⟨⟨-, hnot⟩, -⟩, hnew⟩, -⟩ := hcond
    obtain ⟨rx, hrx⟩ := Option.isSome_iff_exists.mp hnew
    apply Ends.bind (h.keys.rotateKeys hrx hppe maxPktNum true)
    rintro c hr c' hc'
    cases hc'
    exact ⟨hnot, hr⟩

theorem Inv.initiate (h : e.Inv peer) (hppe : e.conn.ppe = none) (pto ts : Nat) :
    Safe (Next e peer) (e.initiate pto ts) := by
  apply Ends.bind (h.initiateKeyUpdate hppe pto ts)
  rintro (_ | c) hr
  · exact h.next_self
  · obtain ⟨hc, hrot⟩ := hr c rfl
    exact h.rotatedSelf hppe hc hrot

theorem installNewKeys_notConfirmed {c : Conn} (hc : c.keyUpdateNotConfirmed = true) (confirmedTs : Option Nat) (pto ts : Nat)
    (rxCkm txCkm : CryptoKm) : c.installNewKeys confirmedTs pto ts rxCkm txCkm = .ok c := by
  rw [Conn.installNewKeys, hc, Bool.true_or, if_pos rfl]

theorem installNewKeys_keys {c : Conn} (h : c.Keys) (confirmedTs : Option Nat) (pto ts : Nat) :
    Safe (fun c' => c'.Keys ∧ Agree c c') (c.installNewKeys confirmedTs pto ts c.rxCkm c.txCkm) := by
  unfold Conn.installNewKeys
  split
  next => exact ⟨h, .refl c⟩
  next hcond =>
    rw [Bool.or_eq_true, not_or, Bool.not_eq_true] at hcond
    split
    next hsome =>
      have hboth : (c.newRxCkm.isSome && c.newTxCkm.isSome) = true := by
        rw [← h.paired, Bool.or_self] at hsome
        rw [← h.paired, Bool.and_self]
        exact hsome
      rw [if_pos hboth]
      exact ⟨h, .refl c⟩
    next =>
      refine ⟨⟨h.gen_eq, rfl, ?_, ?_, fun _ => rfl, fun _ => hcond.1, ?_, h.initiator, h.rxFirst, h.txFirst⟩,
        { Agree.refl c with }⟩
      · rintro ckm hckm
        cases hckm
        exact congrArg (· + 1) h.gen_eq
      · rintro ckm hckm
        cases hckm
        rfl
      · exact fun ckm hckm => (Option.not_mem_none ckm hckm).elim

theorem Inv.prepare (h : e.Inv peer) (hppe : e.conn.ppe = none) (pto ts : Nat) : Safe (Next e peer) (e.prepare pto ts) := by
  have hkeep : ∀ c, c.Keys ∧ Agree e.conn c → Next e peer (e.keep c .self) := by
    rintro c ⟨hk, ha⟩
    rw [keep_of_gen ha.gen]
    exact h.next_agree hk ha
  have hinstall : Safe (fun r => ∀ c ∈ r, Next e peer (e.keep c .self))
      (some <$> e.conn.installNewKeys e.conn.confirmedTs pto ts e.conn.rxCkm e.conn.txCkm) := by
    apply Ends.bind (installNewKeys_keys h.keys e.conn.confirmedTs pto ts)
    intro c hc c' hc'
    cases hc'
    exact hkeep c hc
  have hprepare : Safe (fun r => ∀ c ∈ r, Next e peer (e.keep c .self)) (e.conn.prepareKeyUpdate pto ts) := by
    unfold Conn.prepareKeyUpdate
    dsimp only
    split
    next =>
      apply Ends.bind (h.initiateKeyUpdate hppe pto ts)
      rintro (_ | c) hr
      · exact fun c hc => (Option.not_mem_none c hc).elim
      · obtain ⟨hc, hrot⟩ := hr c rfl
        dsimp only
        rw [installNewKeys_notConfirmed hrot.notConfirmed]
        intro c' hc'
        cases hc'
        exact h.rotatedSelf hppe hc hrot
    next => exact hinstall
  apply Ends.bind hprepare
  rintro (_ | c) hr
  · exact h.next_self
  · exact hr c rfl

/-- The selected key is the one that the connection holds. -/
def Selects (c : Conn) : Conn.Selected → Prop
  | .old ckm => c.oldRxCkm = some ckm
  | .new ckm => c.newRxCkm = some ckm
  | .current => True
  | .failure => True

theorem selectKey_selects {c : Conn} (h : c.Keys) {hd : Hd} (hnum : hd.pktNum < maxPktNum) :
    Safe (Selects c) (c.selectKey hd) := by
  unfold Conn.selectKey
  split
  next =>
    split
    next =>
      split
      next ckm hold => exact hold
      next => trivial
    next hle =>
      split
      next hmax =>
        have hlt : c.rxCkm.pktNum < hd.pktNum := by
          rcases h.rxFirst with hrx | hrx
          · exact Int.lt_of_le_of_lt hrx hmax
          · exact absurd (hrx ▸ hnum) hle
        rw [if_pos hlt]
        split
        next ckm hnew => exact hnew
        next => trivial
      next => trivial
  next => trivial

theorem openPkt_some {hd : Hd} {gen : Nat} {sealed : Option Pkt} {pkt : Pkt} (h : Conn.openPkt hd gen sealed = some pkt) :
    pkt ∈ sealed ∧ pkt.hd = hd ∧ pkt.gen = gen := by
  cases sealed with
  | none => cases h
  | some p =>
      rw [Conn.openPkt] at h
      split_ifs at h with heq
      cases h
      exact ⟨rfl, heq⟩

theorem recvFrames_cases {c c₁ : Conn} {pkt : Pkt} {ts : Nat} (h : c.recvFrames pkt ts = some c₁) :
    c₁ = c ∨ c.keyUpdateNotConfirmed = true ∧
      c₁ = { c with keyUpdateNotConfirmed := false, keyUpdateInitiator := false, confirmedTs := some ts } := by
  unfold Conn.recvFrames at h
  split at h
  next => exact Or.inl (Option.some.inj h).symm
  next n hn =>
    unfold Conn.recvAck at h
    split_ifs at h with hlast hcond
    · simp only [Bool.and_eq_true] at hcond
      exact Or.inr ⟨hcond.1.1, (Option.some.inj h).symm⟩
    · exact Or.inl (Option.some.inj h).symm

theorem recvFrames_txCkm {c c₁ : Conn} {pkt : Pkt} {ts : Nat} (h : c.recvFrames pkt ts = some c₁) : c₁.txCkm = c.txCkm := by
  rcases recvFrames_cases h with rfl | ⟨-, rfl⟩ <;> rfl

theorem recvFrames_commit {c c₁ : Conn} {pkt : Pkt} {ts : Nat} (h : c.recvFrames pkt ts = some c₁) (n : Int) :
    (c.commitRecvPktNum n).recvFrames pkt ts = some (c₁.commitRecvPktNum n) := by
  unfold Conn.recvFrames at h ⊢
  split at h
  next =>
    cases h
    rfl
  next k hk =>
    unfold Conn.recvAck at h ⊢
    split_ifs at h with hlast hcond
    · cases h
      exact (if_neg hlast).trans (if_pos hcond)
    · cases h
      exact (if_neg hlast).trans (if_neg hcond)

/-- What the reception of a packet has to establish. -/
def Received (e peer : Endpoint) (r : Conn.Recv × Conn) : Prop :=
  Next e peer (e.recvd r)

theorem Inv.refused (h : e.Inv peer) {r : Conn.Recv} {c : Conn} (hr : ∀ pkt gen, r ≠ .accepted pkt gen) (hk : c.Keys)
    (ha : Agree e.conn c) : Received e peer (r, c) := by
  have hkeep : e.recvd (r, c) = e.keep c .peer := by
    cases r with
    | accepted pkt gen => exact absurd rfl (hr pkt gen)
    | discarded | aeadLimitReached | proto => rfl
  rw [Received, hkeep, keep_of_gen ha.gen]
  exact h.next_agree hk ha

theorem Inv.unchanged (h : e.Inv peer) {r : Conn.Recv} (hr : ∀ pkt gen, r ≠ .accepted pkt gen) :
    Received e peer (r, e.conn) :=
  h.refused hr h.keys (.refl e.conn)

theorem Inv.decryptionFailure (h : e.Inv peer) : Received e peer e.conn.decryptionFailure := by
  unfold Conn.decryptionFailure
  dsimp only
  split
  next => exact h.refused (fun pkt gen => Conn.Recv.noConfusion) { h.keys with } { Agree.refl e.conn with }
  next => exact h.refused (fun pkt gen => Conn.Recv.noConfusion) { h.keys with } { Agree.refl e.conn with }

/-- The packet of a generation that the endpoint has reached is recorded before its frames are looked at. -/
theorem Inv.acceptFrames (hp : peer.Inv e) (h : e.Inv peer) {pkt : Pkt} (hpkt : pkt ∈ peer.sent) (hgen : pkt.gen ≤ e.gen)
    (hnum : pkt.hd.pktNum < maxPktNum) {ts : Nat} {c : Conn} (hrecv : e.conn.recvFrames pkt ts = some c) :
    ({ e.accept pkt with conn := c.commitRecvPktNum pkt.hd.pktNum } : Endpoint).Inv peer := by
  have hacc := h.accept hpkt hgen hnum
  exact Inv.recvFrames (hp.peer_grows (.same rfl rfl)) hacc (a := (pkt, pkt.gen)) List.mem_cons_self
    (recvFrames_commit hrecv pkt.hd.pktNum)

/-- The acceptance of a packet that leaves the generations as they are. -/
theorem received_accepted {pkt : Pkt} {c : Conn} (htx : c.txCkm.gen = e.gen)
    (h : ({ e.accept pkt with conn := c } : Endpoint).Inv peer) : Received e peer (.accepted pkt pkt.gen, c) := by
  have hrecvd : e.recvd (.accepted pkt pkt.gen, c) = { e.accept pkt with conn := c } := by
    unfold recvd
    dsimp only
    rw [keep_of_gen htx]
    rfl
  rw [Received, hrecvd]
  exact ⟨h, .same rfl htx⟩

theorem Inv.useCurrent (hp : peer.Inv e) (h : e.Inv peer) {pkt : Pkt} (hpkt : pkt ∈ peer.sent) (hgen : pkt.gen = e.gen)
    (hnum : pkt.hd.pktNum < maxPktNum) {ts : Nat} {c : Conn} (hrecv : e.conn.recvFrames pkt ts = some c) :
    Safe (fun c' => Received e peer (.accepted pkt pkt.gen, c'.commitRecvPktNum pkt.hd.pktNum)) (c.useKey pkt.hd .current) := by
  have hframes := Inv.acceptFrames hp h hpkt hgen.le hnum hrecv
  have htx : c.txCkm.gen = e.gen := congrArg CryptoKm.gen (recvFrames_txCkm hrecv)
  have hlower := Inv.lowerCurrent hframes (a := (pkt, pkt.gen)) List.mem_cons_self List.mem_cons_self (hgen.trans htx.symm)
  exact received_accepted (by exact htx) hlower

theorem recvFrames_oldRxCkm {c c₁ : Conn} {pkt : Pkt} {ts : Nat} (h : c.recvFrames pkt ts = some c₁) :
    c₁.oldRxCkm = c.oldRxCkm := by
  rcases recvFrames_cases h with rfl | ⟨-, rfl⟩ <;> rfl

theorem Inv.useOld (hp : peer.Inv e) (h : e.Inv peer) {pkt : Pkt} (hpkt : pkt ∈ peer.sent) {ckm : CryptoKm}
    (hold : e.conn.oldRxCkm = some ckm) (hgen : pkt.gen = ckm.gen) (hnum : pkt.hd.pktNum < maxPktNum) {ts : Nat} {c : Conn}
    (hrecv : e.conn.recvFrames pkt ts = some c) :
    Safe (fun c' => Received e peer (.accepted pkt pkt.gen, c'.commitRecvPktNum pkt.hd.pktNum))
      (c.useKey pkt.hd (.old ckm)) := by
  have hle : pkt.gen ≤ e.gen := by
    rw [hgen]
    exact (Nat.le_succ _).trans (h.keys.old ckm hold).le
  have hframes := Inv.acceptFrames hp h hpkt hle hnum hrecv
  have htx : c.txCkm.gen = e.gen := congrArg CryptoKm.gen (recvFrames_txCkm hrecv)
  have hlower := hframes.lowerOld ((recvFrames_oldRxCkm hrecv).trans hold) (min ckm.pktNum pkt.hd.pktNum)
  exact received_accepted (by exact htx) hlower

theorem Inv.useNew (hp : peer.Inv e) (h : e.Inv peer) (hppe : e.conn.ppe = none) {pkt : Pkt} (hpkt : pkt ∈ peer.sent)
    {ckm : CryptoKm} (hnew : e.conn.newRxCkm = some ckm) (hgen : pkt.gen = ckm.gen) (hnum : pkt.hd.pktNum < maxPktNum)
    {ts : Nat} {c : Conn} (hrecv : e.conn.recvFrames pkt ts = some c) :
    Safe (fun c' => Received e peer (.accepted pkt pkt.gen, c'.commitRecvPktNum pkt.hd.pktNum))
      (c.useKey pkt.hd (.new ckm)) := by
  have hsome : e.conn.newRxCkm.isSome = true := by rw [hnew, Option.isSome_some]
  have hsame : c = e.conn := by
    rcases recvFrames_cases hrecv with hsame | ⟨hnot, -⟩
    · exact hsame
    · rw [h.keys.newConfirmed hsome] at hnot
      cases hnot
  rw [hsame]
  apply Ends.mono (h.keys.rotateKeys hnew hppe pkt.hd.pktNum false)
  intro c' hr
  exact Inv.rotatedPeer hp h hppe hpkt (hgen.trans (h.keys.newRxGen ckm hnew)) hnum hr

theorem Inv.recvOneRtt (hp : peer.Inv e) (h : e.Inv peer) (hppe : e.conn.ppe = none) {hd : Hd} (hnum : hd.pktNum < maxPktNum)
    {sealed : Option Pkt} (hsealed : ∀ pkt ∈ sealed, pkt ∈ peer.sent) (ts : Nat) :
    Safe (Received e peer) (e.conn.recvOneRtt hd sealed ts) := by
  apply Ends.bind (selectKey_selects h.keys hnum)
  intro key hkey
  split
  next => exact h.decryptionFailure
  next pkt hopen =>
    obtain ⟨gen, hgen, hopen⟩ := Option.bind_eq_some_iff.mp hopen
    obtain ⟨hmem, rfl, rfl⟩ := openPkt_some hopen
    have hpkt := hsealed pkt hmem
    split
    next => exact h.unchanged fun pkt gen => Conn.Recv.noConfusion
    next =>
      split
      next => exact h.unchanged fun pkt gen => Conn.Recv.noConfusion
      next c hrecv =>
        have huse : Safe (fun c' => Received e peer (.accepted pkt pkt.gen, c'.commitRecvPktNum pkt.hd.pktNum))
            (c.useKey pkt.hd key) := by
          cases key with
          | current => exact Inv.useCurrent hp h hpkt ((Option.some.inj hgen).symm.trans h.keys.gen_eq) hnum hrecv
          | old ckm => exact Inv.useOld hp h hpkt hkey (Option.some.inj hgen).symm hnum hrecv
          | new ckm => exact Inv.useNew hp h hppe hpkt hkey (Option.some.inj hgen).symm hnum hrecv
          | failure => cases hgen
        exact Ends.bind huse fun c' hc' => hc'

theorem Inv.recvZeroRtt (h : e.Inv peer) {hd : Hd} (hnum : hd.pktNum < maxPktNum) {sealed : Option Pkt}
    (hsealed : ∀ pkt ∈ sealed, pkt ∈ peer.sent) : Received e peer (e.conn.recvZeroRtt hd sealed) := by
  unfold Conn.recvZeroRtt
  split
  next => exact h.unchanged fun pkt gen => Conn.Recv.noConfusion
  next =>
    split
    next => exact h.unchanged fun pkt gen => Conn.Recv.noConfusion
    next pkt hopen =>
      obtain ⟨hmem, rfl, hgen⟩ := openPkt_some hopen
      split
      next => exact h.unchanged fun pkt gen => Conn.Recv.noConfusion
      next =>
        split
        next => exact h.unchanged fun pkt gen => Conn.Recv.noConfusion
        next => exact received_accepted rfl (h.accept (hsealed pkt hmem) (hgen ▸ Nat.zero_le _) hnum)

theorem Inv.recv (hp : peer.Inv e) (h : e.Inv peer) (hppe : e.conn.ppe = none) {hd : Hd} (hnum : hd.pktNum < maxPktNum)
    {sealed : Option Pkt} (hsealed : ∀ pkt ∈ sealed, pkt ∈ peer.sent) (ts : Nat) :
    Safe (Next e peer) (e.recv hd sealed ts) := by
  have hrecv : Safe (Received e peer) (e.conn.recvPkt hd sealed ts) := by
    unfold Conn.recvPkt
    rw [if_neg (Int.not_lt.mpr hnum.le)]
    cases hd.type with
    | oneRtt => exact Inv.recvOneRtt hp h hppe hnum hsealed ts
    | zeroRtt => exact h.recvZeroRtt hnum hsealed
  exact Ends.bind hrecv fun r hr => hr

/-- Whatever an endpoint may do, no assertion fails, and its part of the invariant holds again. -/
theorem Inv.act (hp : peer.Inv e) (h : e.Inv peer) {act : Act} (hact : Allowed peer e act) : Safe (Next e peer) (e.act act) := by
  cases act with
  | confirm => exact h.next_agree { h.keys with } { Agree.refl e.conn with }
  | discardEarly => exact h.next_agree { h.keys with } { Agree.refl e.conn with }
  | prepare pto ts => exact h.prepare hact pto ts
  | initiate pto ts => exact h.initiate hact pto ts
  | skip => exact h.skip hact
  | start largestAck ts => exact Inv.start hp h hact.1 hact.2.2 ts
  | finish => exact h.finish hact
  | recv hd sealed ts => exact Inv.recv hp h hact.1 hact.2.1 hact.2.2 ts

end Endpoint

end Zngtcp2.KeyUpdate
