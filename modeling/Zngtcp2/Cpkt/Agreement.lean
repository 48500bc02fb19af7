import Zngtcp2.Cpkt.Coalesced

namespace Zngtcp2.Cpkt

open Pkt

variable {σ : Type}

/-- Of what is left of a datagram, the bytes that belong to the first packet. -/
def ownBytes (call : Bytes × Except Err Nat) : Bytes × Except Err Nat :=
  (call.1.take ((splitLen call.1).getD call.1.length), call.2)

/-- Two loops are at the same place, one with copies and one without. -/
structure Sim (wc wi : Work σ) (cc ci : Cursor) : Prop where
  conn : wc.conn = { wi.conn with rxPktBufCtx := true }
  inPlace : wi.conn.rxPktBufCtx = false
  pkt : cc.pkt = ci.pkt
  consumed : cc.consumed = ci.consumed
  exactc : cc.Exact
  exacti : ci.Exact
  calls : calls wc.log = (calls wi.log).map ownBytes

/-- Two loops return the same, and have called the handler for the same packets. -/
structure SameResult (rc ri : Except Err Nat × Work σ) : Prop where
  res : rc.1 = ri.1
  conn : rc.2.conn = { ri.2.conn with rxPktBufCtx := true }
  calls : calls rc.2.log = (calls ri.2.log).map ownBytes

namespace Sim

variable {wc wi : Work σ} {cc ci : Cursor} (h : Sim wc wi cc ci)

include h

theorem st : wc.conn.st = wi.conn.st := by
  rw [h.conn]

theorem isFirst : cc.isFirst = ci.isFirst := by
  rw [Bool.eq_iff_iff, h.exactc.first, h.exacti.first, h.consumed]

theorem position : cc.position = ci.position := by
  rw [h.exactc.position, h.exacti.position, h.consumed]

theorem given_inPlace : given wi.conn ci.pkt = ci.pkt := by
  simp [given, h.inPlace]

theorem calls_append {nread : Except Err Nat} {log log' : List Event}
    (hc : Cpkt.calls log = Cpkt.calls wc.log ++ [(given wc.conn cc.pkt, nread)])
    (hi : Cpkt.calls log' = Cpkt.calls wi.log ++ [(given wi.conn ci.pkt, nread)]) :
    Cpkt.calls log = (Cpkt.calls log').map ownBytes := by
  rw [hc, hi, h.given_inPlace, List.map_append, h.calls, List.map_singleton, ownBytes, given, h.conn, if_pos rfl, h.pkt]

end Sim

/-- The loop returns the same with and without copies, as long as no packet is discarded that other
bytes follow. -/
theorem loops_agree {alloc : Nat → Alloc} (halloc : ∀ n, alloc n = .gives) {p : Procedure σ} (hp : Framed p)
    {fuel fuel' : Nat} {wc wi : Work σ} {cc ci : Cursor} {rc ri : Except Err Nat × Work σ} (hsim : Sim wc wi cc ci)
    (hc : loop alloc p fuel wc cc = some (.ok rc)) (hi : loop alloc p fuel' wi ci = some (.ok ri))
    (hlast : ∀ call ∈ calls ri.2.log, call.2 = .error .discardPkt → splitLen call.1 = none) : SameResult rc ri := by
  have hallocc : wc.conn.rxPktBufCtx = true → ∀ n, alloc n = .gives := fun _ => halloc
  have halloci : wi.conn.rxPktBufCtx = true → ∀ n, alloc n = .gives := fun _ => halloc
  induction fuel' generalizing fuel wc wi cc ci with
  | zero =>
      rcases loop_cases hi with ⟨hnil, rfl⟩ | ⟨_, hfuel, -⟩
      · rcases loop_cases hc with ⟨-, rfl⟩ | ⟨_, -, hne, -⟩
        · exact ⟨rfl, by simp [hsim.conn], by simp [hsim.calls]⟩
        · exact absurd (hsim.pkt.trans hnil) hne
      · cases hfuel
  | succ fuel' ih =>
      rcases loop_cases hi with ⟨hnil, rfl⟩ | ⟨_, -, hne, -⟩
      · rcases loop_cases hc with ⟨-, rfl⟩ | ⟨_, -, hne, -⟩
        · exact ⟨rfl, by simp [hsim.conn], by simp [hsim.calls]⟩
        · exact absurd (hsim.pkt.trans hnil) hne
      have hnec : cc.pkt ≠ [] := by
        rw [hsim.pkt]
        exact hne
      have hrecv : p.recv wc.conn.st cc.pkt = p.recv wi.conn.st ci.pkt := by rw [hsim.st, hsim.pkt]
      cases hr : (p.recv wi.conn.st ci.pkt).1 with
      | ok n =>
          have hrc : (p.recv wc.conn.st cc.pkt).1 = .ok n := by rw [hrecv, hr]
          by_cases hz : p.stopsAtZero = true ∧ n = 0
          · obtain ⟨-, rfl⟩ := hz
            obtain ⟨wc', hsc, hconnc, hcallsc⟩ := step_stop hallocc hp hnec hrc
            obtain ⟨wi', hsi, hconni, hcallsi⟩ := step_stop halloci hp hne hr
            rw [loop_inl hc hnec hsc, loop_inl hi hne hsi]
            exact ⟨by simp only [hsim.position], by simp only [hconnc, hconni, hsim.conn, hsim.pkt],
              hsim.calls_append hcallsc hcallsi⟩
          · have hpos : 0 < n := by
              rcases Nat.eq_zero_or_pos n with rfl | hpos
              · exact absurd ⟨(hp.zero hne hr).1, rfl⟩ hz
              · exact hpos
            obtain ⟨wc', cc', hsc, hconnc, hcallsc, hpktc, hconsc, hcurc, hoffc⟩ := step_read hallocc hp hrc hz
            obtain ⟨wi', ci', hsi, hconni, hcallsi, hpkti, hconsi, hcuri, hoffi⟩ := step_read halloci hp hr hz
            obtain ⟨fuel₁, -, hloopc⟩ := loop_inr hc hnec hsc
            obtain ⟨_, hfuel, hloopi⟩ := loop_inr hi hne hsi
            cases hfuel
            refine ih ?_ hloopc hloopi (fun _ => halloc) (fun _ => halloc)
            exact ⟨by simp only [hconnc, hconni, hsim.conn, hsim.pkt], by rw [hconni]; exact hsim.inPlace,
              by rw [hpktc, hpkti, hsim.pkt], by rw [hconsc, hconsi, hsim.consumed],
              hsim.exactc.read hpos hconsc hcurc hoffc, hsim.exacti.read hpos hconsi hcuri hoffi,
              hsim.calls_append hcallsc hcallsi⟩
      | error e =>
          have hrc : (p.recv wc.conn.st cc.pkt).1 = .error e := by rw [hrecv, hr]
          have hvc : p.onError cc.isFirst cc.pkt e (p.recv wc.conn.st cc.pkt).2 =
              p.onError ci.isFirst ci.pkt e (p.recv wi.conn.st ci.pkt).2 := by
            rw [hrecv, hsim.isFirst, hsim.pkt]
          cases hv : (p.onError ci.isFirst ci.pkt e (p.recv wi.conn.st ci.pkt).2).1 with
          | fail e' =>
              obtain ⟨wc', hsc, hconnc, hcallsc⟩ := step_fail hallocc hp hrc (by rw [hvc, hv])
              obtain ⟨wi', hsi, hconni, hcallsi⟩ := step_fail halloci hp hr hv
              rw [loop_inl hc hnec hsc, loop_inl hi hne hsi]
              exact ⟨rfl, by simp only [hconnc, hconni, hsim.conn, hsim.pkt, hsim.isFirst], hsim.calls_append hcallsc hcallsi⟩
          | drop res =>
              obtain ⟨wc', hsc, hconnc, hcallsc⟩ := step_drop hallocc hp hrc (by rw [hvc, hv])
              obtain ⟨wi', hsi, hconni, hcallsi⟩ := step_drop halloci hp hr hv
              rw [loop_inl hc hnec hsc, loop_inl hi hne hsi]
              exact ⟨rfl, by simp only [hconnc, hconni, hsim.conn, hsim.pkt, hsim.isFirst], hsim.calls_append hcallsc hcallsi⟩
          | discard =>
              obtain ⟨wi', hsi, hconni, hcallsi⟩ := step_discard_last halloci hp hr hv (by simp [copies, hsim.inPlace])
              -- The discarded packet is the last of the datagram, so that nothing was copied.
              have hsplit : splitLen ci.pkt = none := by
                rw [loop_inl hi hne hsi, hcallsi, hsim.given_inPlace] at hlast
                obtain rfl := hp.discard hv
                exact hlast (ci.pkt, .error .discardPkt) (by simp) rfl
              obtain ⟨wc', hsc, hconnc, hcallsc⟩ :=
                step_discard_last hallocc hp hrc (by rw [hvc, hv]) (by simp [copies, hsim.pkt, hsplit])
              rw [loop_inl hc hnec hsc, loop_inl hi hne hsi]
              exact ⟨rfl, by simp only [hconnc, hconni, hsim.conn, hsim.pkt, hsim.isFirst], hsim.calls_append hcallsc hcallsi⟩

/-- The packets are all read; given is the state behind the last. -/
def readAll (p : Procedure σ) : σ → List Bytes → Option σ
  | st, [] => some st
  | st, pkt :: pkts =>
      match (p.recv st pkt).1 with
      | .ok _ => readAll p (p.recv st pkt).2 pkts
      | .error _ => none

/-- Where the packets before a 1-RTT packet are all read, the loop of the handshake returns the offset
of that packet. -/
theorem loop_offset {alloc : Nat → Alloc} {p : Procedure σ} (hp : Framed p) {tail : Bytes} (htail : tail ≠ [])
    {pkts : List Bytes} (hpkts : ∀ pkt ∈ pkts, LongPacket pkt) {fuel : Nat} {w : Work σ} {c : Cursor}
    {r : Except Err Nat × Work σ} {st : σ} (halloc : w.conn.rxPktBufCtx = true → ∀ n, alloc n = .gives)
    (hc : c.pkt = pkts.flatten ++ tail) (hexact : c.Exact) (hall : readAll p w.conn.st pkts = some st)
    (hstop : (p.recv st tail).1 = .ok 0) (h : loop alloc p fuel w c = some (.ok r)) :
    r.1 = .ok (c.consumed + pkts.flatten.length) ∧ r.2.conn.st = (p.recv st tail).2 := by
  induction pkts generalizing fuel w c with
  | nil =>
      cases hall
      have hpkt : c.pkt = tail := hc
      obtain ⟨w', hs, hconn, -⟩ := step_stop halloc hp (by rw [hpkt]; exact htail) (by rw [hpkt]; exact hstop)
      rw [loop_inl h (by rw [hpkt]; exact htail) hs]
      refine ⟨by simp [hexact.position], ?_⟩
      simp only [hconn, hpkt]
  | cons pkt pkts ih =>
      have hpkt := hpkts pkt List.mem_cons_self
      rw [List.flatten_cons, List.append_assoc] at hc
      have hne : c.pkt ≠ [] := by
        rw [hc]
        intro hnil
        exact hpkt.ne_nil (List.append_eq_nil_iff.mp hnil).1
      have hrecv := hpkt.recv_append hp (pkts.flatten ++ tail) w.conn.st
      rw [← hc] at hrecv
      rw [readAll] at hall
      cases hr : (p.recv w.conn.st pkt).1 with
      | error e =>
          rw [hr] at hall
          cases hall
      | ok n =>
          rw [hr] at hall
          obtain ⟨hlen, hpos⟩ := hpkt.recv_ok hp hr
          obtain ⟨w', c', hs, hconn, -, hpkt', hconsumed, hcurrent, hoff⟩ :=
            step_read halloc hp (by rw [hrecv, hr]) (by omega)
          obtain ⟨fuel', -, hloop⟩ := loop_inr h hne hs
          rw [hrecv] at hconn
          have hst : w'.conn.st = (p.recv w.conn.st pkt).2 := by rw [hconn]
          obtain ⟨hres, hfinal⟩ := ih (fun q hq => hpkts q (List.mem_cons_of_mem pkt hq)) (by rw [hconn]; exact halloc)
            (by rw [hpkt', hc, hlen, List.drop_left]) (hexact.read hpos hconsumed hcurrent hoff)
            (by rw [hst]; exact hall) hloop
          refine ⟨?_, hfinal⟩
          rw [hres, hconsumed, List.flatten_cons, List.length_append, hlen, Nat.add_assoc]

/-- The packets are handed over alone, each once and in their order. -/
theorem handOver_packets (p : Procedure σ) (tail : Bytes) (first : Bool) (st : σ) (pkts : List Bytes) :
    (handOver p true tail first st pkts).1.map Prod.fst <+: pkts ∧
      ((handOver p true tail first st pkts).2.isSome → (handOver p true tail first st pkts).1.map Prod.fst = pkts) := by
  induction pkts generalizing first st with
  | nil => exact ⟨List.prefix_refl _, fun _ => rfl⟩
  | cons pkt pkts ih =>
      have hmore : ∀ (st' : σ) (nread : Except Err Nat),
          ((pkt, nread) :: (handOver p true tail false st' pkts).1).map Prod.fst <+: pkt :: pkts ∧
            ((handOver p true tail false st' pkts).2.isSome →
              ((pkt, nread) :: (handOver p true tail false st' pkts).1).map Prod.fst = pkt :: pkts) := by
        intro st' nread
        obtain ⟨hpre, hall⟩ := ih false st'
        rw [List.map_cons]
        exact ⟨List.prefix_cons_inj pkt |>.mpr hpre, fun hsome => by rw [hall hsome]⟩
      have hend : ∀ nread : Except Err Nat, [(pkt, nread)].map Prod.fst <+: pkt :: pkts ∧
          ((none : Option σ).isSome → [(pkt, nread)].map Prod.fst = pkt :: pkts) := by
        intro nread
        exact ⟨⟨pkts, rfl⟩, fun hsome => by cases hsome⟩
      simp only [handOver, if_true]
      split
      · exact hmore _ _
      · split
        · exact hmore _ _
        · exact hend _

/-- What is made of the packets and the trailing bytes of a datagram. Where every copy can be
allocated, the packets are handed over, and so are the trailing bytes if no packet ended the datagram. -/
structure Processed (alloc : Nat → Alloc) (p : Procedure σ) (conn : Conn σ) (pkts : List Bytes) (tail : Bytes)
    (r : Except Err Nat × Work σ) : Prop where
  released : (allocs r.2.log).Nodup ∧ (releases r.2.log).Perm (allocs r.2.log)
  handed : (conn.rxPktBufCtx = true → ∀ n, alloc n = .gives) →
    ∃ t, calls r.2.log = (handOver p conn.rxPktBufCtx tail true conn.st pkts).1 ++ t ∧
      Trailing p tail t (handOver p conn.rxPktBufCtx tail true conn.st pkts).2
  alone : conn.rxPktBufCtx = true →
    (handOver p true tail true conn.st pkts).1.map Prod.fst <+: pkts ∧
      ((handOver p true tail true conn.st pkts).2.isSome →
        (handOver p true tail true conn.st pkts).1.map Prod.fst = pkts)

theorem loop_processed (alloc : Nat → Alloc) {p : Procedure σ} (hp : Framed p) (conn : Conn σ) {pkts : List Bytes}
    (hpkts : ∀ pkt ∈ pkts, LongPacket pkt) (tail : Bytes) :
    ∃ r, loop alloc p (pkts.flatten ++ tail).length { conn := conn } { pkt := pkts.flatten ++ tail } = some (.ok r) ∧
      Processed alloc p conn pkts tail r := by
  obtain ⟨r, hr⟩ := @loop_returns σ alloc p hp (pkts.flatten ++ tail).length { conn := conn }
    { pkt := pkts.flatten ++ tail } (Nat.le_refl _)
  refine ⟨r, hr, ?_, fun halloc => ?_, fun _ => handOver_packets p tail true conn.st pkts⟩
  · have hheld := @loop_held σ alloc p _ { conn := conn } _ r ⟨List.Perm.refl _, List.nodup_nil, by simp [allocs]⟩ hr
    refine ⟨hheld.nodup, ?_⟩
    have hperm := hheld.perm
    rw [List.append_nil] at hperm
    exact hperm.symm
  · obtain ⟨t, ht, htrailing⟩ := loop_handOver hp hpkts halloc rfl hr
    exact ⟨t, ht, htrailing⟩

theorem start_sim {conn : Conn σ} (dgram : Bytes) :
    Sim { conn := { conn with rxPktBufCtx := true } } { conn := { conn with rxPktBufCtx := false } } { pkt := dgram }
      { pkt := dgram } := by
  have hexact : ({ pkt := dgram } : Cursor).Exact := ⟨rfl, by simp [Cursor.isFirst]⟩
  exact ⟨rfl, rfl, rfl, rfl, hexact, hexact, rfl⟩

/-- No packet is discarded that other bytes of the datagram follow. -/
def DiscardsLast (w : Work σ) : Prop :=
  ∀ call ∈ calls w.log, call.2 = .error .discardPkt → splitLen call.1 = none

theorem countDgram_ctx (arrival : Arrival) (conn : Conn σ) (n : Nat) (ctx : Bool) :
    countDgram arrival { conn with rxPktBufCtx := ctx } n = { countDgram arrival conn n with rxPktBufCtx := ctx } := by
  rw [countDgram, countDgram]
  split <;> rfl

theorem countDgram_st (arrival : Arrival) (conn : Conn σ) (n : Nat) : (countDgram arrival conn n).st = conn.st := by
  rw [countDgram]
  split <;> rfl

theorem countDgram_rxPktBufCtx (arrival : Arrival) (conn : Conn σ) (n : Nat) :
    (countDgram arrival conn n).rxPktBufCtx = conn.rxPktBufCtx := by
  rw [countDgram]
  split <;> rfl

theorem Processed.countDgram {alloc : Nat → Alloc} {p : Procedure σ} {arrival : Arrival} {conn : Conn σ} {n : Nat}
    {pkts : List Bytes} {tail : Bytes} {r : Except Err Nat × Work σ}
    (h : Processed alloc p (countDgram arrival conn n) pkts tail r) : Processed alloc p conn pkts tail r := by
  refine ⟨h.released, fun halloc => ?_, fun _ => handOver_packets p tail true conn.st pkts⟩
  have hhanded := h.handed
  rw [countDgram_rxPktBufCtx, countDgram_st] at hhanded
  exact hhanded halloc

theorem connRecvHandshakeCpkt_processed (alloc : Nat → Alloc) (hsOps : HandshakeOps σ) (arrival : Arrival)
    (conn : Conn σ) {pkts : List Bytes} (hpkts : ∀ pkt ∈ pkts, LongPacket pkt) (tail : Bytes) :
    ∃ r, connRecvHandshakeCpkt alloc hsOps arrival conn (pkts.flatten ++ tail) (pkts.flatten ++ tail).length =
        some (.ok r) ∧
      Processed alloc (handshakeProcedure hsOps (pkts.flatten ++ tail).length) conn pkts tail r := by
  rw [connRecvHandshakeCpkt]
  by_cases hnil : pkts.flatten ++ tail = []
  · obtain ⟨hflat, rfl⟩ := List.append_eq_nil_iff.mp hnil
    obtain rfl := flatten_eq_nil hpkts hflat
    rw [if_pos hnil]
    exact ⟨_, rfl, ⟨by simp [allocs], by simp [allocs, releases]⟩, fun _ => ⟨[], rfl, fun _ => rfl, fun h => absurd rfl h⟩,
      fun _ => ⟨List.prefix_refl _, fun _ => rfl⟩⟩
  · rw [if_neg hnil]
    obtain ⟨r, hr, hproc⟩ := loop_processed alloc
      (connRecvHandshakePkt_framed hsOps (pkts.flatten ++ tail).length)
      (countDgram arrival conn (pkts.flatten ++ tail).length) hpkts tail
    exact ⟨r, hr, hproc.countDgram⟩

theorem connRecvCpkt_processed (alloc : Nat → Alloc) (ops : PktOps σ) {arrival : Arrival}
    (harrival : arrival.refused = false) (conn : Conn σ) {pkts : List Bytes} (hpkts : ∀ pkt ∈ pkts, LongPacket pkt)
    (tail : Bytes) :
    ∃ r, connRecvCpkt alloc ops arrival conn (pkts.flatten ++ tail) (pkts.flatten ++ tail).length = some (.ok r) ∧
      Processed alloc (cpktProcedure ops) conn pkts tail r := by
  simp only [connRecvCpkt, harrival, Bool.false_eq_true, if_false]
  obtain ⟨r, hr, hproc⟩ := loop_processed alloc (connRecvPkt_framed ops)
    (countDgram arrival conn (pkts.flatten ++ tail).length) hpkts tail
  exact ⟨r, hr, hproc.countDgram⟩

theorem connRecvHandshakeCpkt_agrees {alloc : Nat → Alloc} (halloc : ∀ n, alloc n = .gives) (hsOps : HandshakeOps σ)
    (arrival : Arrival) (conn : Conn σ) (dgram : Bytes) {fuel : Nat} {rc ri : Except Err Nat × Work σ}
    (hc : connRecvHandshakeCpkt alloc hsOps arrival { conn with rxPktBufCtx := true } dgram fuel = some (.ok rc))
    (hi : connRecvHandshakeCpkt alloc hsOps arrival { conn with rxPktBufCtx := false } dgram fuel = some (.ok ri))
    (hlast : DiscardsLast ri.2) : SameResult rc ri := by
  rw [connRecvHandshakeCpkt] at hc hi
  by_cases hnil : dgram = []
  · rw [if_pos hnil] at hc hi
    cases hc
    cases hi
    exact ⟨rfl, rfl, rfl⟩
  · rw [if_neg hnil, countDgram_ctx] at hc hi
    exact loops_agree halloc (connRecvHandshakePkt_framed hsOps dgram.length) (start_sim dgram) hc hi hlast

theorem connRecvCpkt_agrees {alloc : Nat → Alloc} (halloc : ∀ n, alloc n = .gives) (ops : PktOps σ) (arrival : Arrival)
    (conn : Conn σ) (dgram : Bytes) {fuel : Nat} {rc ri : Except Err Nat × Work σ}
    (hc : connRecvCpkt alloc ops arrival { conn with rxPktBufCtx := true } dgram fuel = some (.ok rc))
    (hi : connRecvCpkt alloc ops arrival { conn with rxPktBufCtx := false } dgram fuel = some (.ok ri))
    (hlast : DiscardsLast ri.2) : SameResult rc ri := by
  simp only [connRecvCpkt, countDgram_ctx] at hc hi
  split at hc
  · rw [if_pos (by assumption)] at hi
    cases hc
    cases hi
    exact ⟨rfl, rfl, rfl⟩
  · rw [if_neg (by assumption)] at hi
    exact loops_agree halloc (connRecvPkt_framed ops) (start_sim dgram) hc hi hlast

/-- `ngtcp2_conn_read_pkt` goes on exactly at the 1-RTT packet at which the loop of the handshake
stopped, if all packets before it were read. -/
theorem connReadPktHandshake_continues {alloc : Nat → Alloc} (hsOps : HandshakeOps σ) (ops : PktOps σ)
    (after : σ → Bytes → HandshakeEnd × σ) (arrival : Arrival) (conn : Conn σ)
    (halloc : conn.rxPktBufCtx = true → ∀ n, alloc n = .gives) {pkts : List Bytes}
    (hpkts : ∀ pkt ∈ pkts, LongPacket pkt) {tail : Bytes} (htail : tail ≠ []) {st : σ}
    (hall : readAll (handshakeProcedure hsOps (pkts.flatten ++ tail).length) conn.st pkts = some st)
    (hstop : (connRecvHandshakePkt hsOps st tail).1 = .ok 0) :
    ∃ w, connRecvHandshakeCpkt alloc hsOps arrival conn (pkts.flatten ++ tail) (pkts.flatten ++ tail).length =
        some (.ok (.ok pkts.flatten.length, w)) ∧
      ∀ st', after w.conn.st tail = (.keeps, st') → hsOps.rxCkm st' = true →
        connReadPktHandshake alloc hsOps ops after arrival conn (pkts.flatten ++ tail) (pkts.flatten ++ tail).length =
          returned (connRecvCpkt alloc ops arrival { w.conn with st := st' } tail (pkts.flatten ++ tail).length) := by
  obtain ⟨r, hr, -⟩ := connRecvHandshakeCpkt_processed alloc hsOps arrival conn hpkts tail
  have hne : pkts.flatten ++ tail ≠ [] := fun hnil => htail (List.append_eq_nil_iff.mp hnil).2
  have hloop := hr
  rw [connRecvHandshakeCpkt, if_neg hne] at hloop
  obtain ⟨hres, -⟩ := loop_offset (connRecvHandshakePkt_framed hsOps (pkts.flatten ++ tail).length) htail hpkts
    (by rw [countDgram_rxPktBufCtx]; exact halloc) rfl ⟨rfl, by simp [Cursor.isFirst]⟩
    (by rw [countDgram_st]; exact hall) hstop hloop
  obtain ⟨res, w⟩ := r
  simp only [Nat.zero_add] at hres
  subst hres
  refine ⟨w, hr, fun st' hafter hckm => ?_⟩
  have htailpos := List.length_pos_iff.mpr htail
  rw [connReadPktHandshake, hr]
  simp only [List.drop_left, hafter]
  rw [if_neg (by rw [List.length_append]; omega), if_neg (by simp [hckm])]

/-- A datagram of long header packets and trailing bytes, be these a short header packet or not. Both
loops end without a failing assertion, release every copy once, and hand the packets over. They do the
same with and without copies unless a packet is discarded that other bytes follow, and where all
packets before a 1-RTT packet are read, the loop of the handshake returns its offset, at which
`ngtcp2_conn_read_pkt` goes on. -/
theorem coalesced_processed (alloc : Nat → Alloc) (hsOps : HandshakeOps σ) (ops : PktOps σ)
    (after : σ → Bytes → HandshakeEnd × σ) (arrival : Arrival) (conn : Conn σ) (pkts : List Bytes) (tail : Bytes)
    (hpkts : ∀ pkt ∈ pkts, LongPacket pkt) :
    let dgram := pkts.flatten ++ tail
    let handshake := fun conn => connRecvHandshakeCpkt alloc hsOps arrival conn dgram dgram.length
    let cpkt := fun conn => connRecvCpkt alloc ops arrival conn dgram dgram.length
    (∃ r, handshake conn = some (.ok r) ∧ Processed alloc (handshakeProcedure hsOps dgram.length) conn pkts tail r) ∧
    (arrival.refused = false → ∃ r, cpkt conn = some (.ok r) ∧ Processed alloc (cpktProcedure ops) conn pkts tail r) ∧
    ((∀ n, alloc n = .gives) → ∀ rc ri,
      (handshake { conn with rxPktBufCtx := true } = some (.ok rc) →
        handshake { conn with rxPktBufCtx := false } = some (.ok ri) → DiscardsLast ri.2 → SameResult rc ri) ∧
      (cpkt { conn with rxPktBufCtx := true } = some (.ok rc) →
        cpkt { conn with rxPktBufCtx := false } = some (.ok ri) → DiscardsLast ri.2 → SameResult rc ri)) ∧
    ((conn.rxPktBufCtx = true → ∀ n, alloc n = .gives) → tail ≠ [] → ∀ st,
      readAll (handshakeProcedure hsOps dgram.length) conn.st pkts = some st →
      (connRecvHandshakePkt hsOps st tail).1 = .ok 0 →
      ∃ w, handshake conn = some (.ok (.ok pkts.flatten.length, w)) ∧
        ∀ st', after w.conn.st tail = (.keeps, st') → hsOps.rxCkm st' = true →
          connReadPktHandshake alloc hsOps ops after arrival conn dgram dgram.length =
            returned (connRecvCpkt alloc ops arrival { w.conn with st := st' } tail dgram.length)) := by
  intro dgram handshake cpkt
  refine ⟨connRecvHandshakeCpkt_processed alloc hsOps arrival conn hpkts tail,
    fun harrival => connRecvCpkt_processed alloc ops harrival conn hpkts tail, fun halloc rc ri => ⟨?_, ?_⟩, ?_⟩
  · exact fun hc hi hlast => connRecvHandshakeCpkt_agrees halloc hsOps arrival conn dgram hc hi hlast
  · exact fun hc hi hlast => connRecvCpkt_agrees halloc ops arrival conn dgram hc hi hlast
  · intro halloc htail st hall hstop
    exact connReadPktHandshake_continues hsOps ops after arrival conn halloc hpkts htail hall hstop

/-- Two Handshake packets without connection IDs, of which the first cannot be authenticated, and a
1-RTT packet. -/
def forgedHandshake : Bytes :=
  [0xE0, 0, 0, 0, 1, 0, 0, 1, 0xFF]

def genuineHandshake : Bytes :=
  [0xE0, 0, 0, 0, 1, 0, 0, 2, 7, 7]

def oneRttPkt : Bytes :=
  0x40 :: List.replicate 20 7

theorem forgedHandshake_longPacket : LongPacket forgedHandshake :=
  ⟨8, { longForm := true, type := .handshake, version := 1, len := 1 }, by decide, by decide, by decide, by decide⟩

theorem genuineHandshake_longPacket : LongPacket genuineHandshake :=
  ⟨8, { longForm := true, type := .handshake, version := 1, len := 2 }, by decide, by decide, by decide, by decide⟩

/-- A client that has the keys, and to which a packet that ends in 0xFF is not authentic. -/
def authenticating : HandshakeOps Unit where
  server := false
  serverInitial _ := false
  rxCkm _ := true
  noInitialRecved _ := false
  bufferPkt _ _ := (none, ())
  recvVersionNegotiation _ _ _ := (.discardPkt, ())
  recvRetry _ _ _ := (some .discardPkt, ())
  recvLong _ _ pkt := (if pkt.getLast? = some 0xFF then some .discardPkt else none, ())

def acceptingOps : PktOps Unit where
  recvShort _ _ := (none, ())
  recvLong _ _ _ := (none, ())
  onStatelessReset _ _ := (false, ())

/-- Both packets are read, and the loop stops at the 1-RTT packet. -/
theorem coalesced_processed_genuine :
    (∀ pkt ∈ [genuineHandshake, genuineHandshake], LongPacket pkt) ∧
      ∃ w, connRecvHandshakeCpkt (fun _ => .gives) authenticating ⟨true, false⟩ { st := (), rxPktBufCtx := true }
        ([genuineHandshake, genuineHandshake].flatten ++ oneRttPkt) 41 = some (.ok (.ok 20, w)) := by
  have hpkts : ∀ pkt ∈ [genuineHandshake, genuineHandshake], LongPacket pkt := by
    simp only [List.mem_cons, List.not_mem_nil, or_false, or_self, forall_eq]
    exact genuineHandshake_longPacket
  obtain ⟨-, -, -, hoffset⟩ := coalesced_processed (fun _ => .gives) authenticating acceptingOps
    (fun _ _ => (.keeps, ())) ⟨true, false⟩ { st := (), rxPktBufCtx := true } _ oneRttPkt hpkts
  obtain ⟨w, hw, -⟩ := hoffset (fun _ _ => rfl) (by decide) () (by decide) (by decide)
  exact ⟨hpkts, w, hw⟩

/-- With copies the loop goes on behind a discarded packet but does not count its bytes: it stops at
the 1-RTT packet, at offset 19, and returns 10. Without copies it stops at the discarded packet. -/
theorem coalesced_discard_offset :
    LongPacket forgedHandshake ∧ LongPacket genuineHandshake ∧ [forgedHandshake, genuineHandshake].flatten.length = 19 ∧
      (∃ w, connRecvHandshakeCpkt (fun _ => .gives) authenticating ⟨true, false⟩ { st := (), rxPktBufCtx := true }
          ([forgedHandshake, genuineHandshake].flatten ++ oneRttPkt) 40 = some (.ok (.ok 10, w)) ∧
        calls w.log = [(forgedHandshake, .error .discardPkt), (genuineHandshake, .ok 10), (oneRttPkt, .ok 0)]) ∧
      ∃ w, connRecvHandshakeCpkt (fun _ => .gives) authenticating ⟨true, false⟩ { st := (), rxPktBufCtx := false }
          ([forgedHandshake, genuineHandshake].flatten ++ oneRttPkt) 40 = some (.ok (.ok 40, w)) ∧
        (calls w.log).length = 1 := by
  exact ⟨forgedHandshake_longPacket, genuineHandshake_longPacket, rfl, ⟨_, rfl, rfl⟩, ⟨_, rfl, rfl⟩⟩

end Zngtcp2.Cpkt
