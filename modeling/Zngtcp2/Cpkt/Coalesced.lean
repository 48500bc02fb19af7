import Zngtcp2.Cpkt.Rounds

namespace Zngtcp2.Cpkt

open Pkt

variable {σ : Type}

/-- The packets are handed over one after another, until what comes of one ends the datagram. With a
buffer context the handler is given the packet alone, else all that is left of the datagram, and a
discarded packet ends the datagram. Given are the calls of the handler and, if none of the packets
ended the datagram, the state behind the last. -/
def handOver (p : Procedure σ) (ctx : Bool) (tail : Bytes) : Bool → σ → List Bytes →
    List (Bytes × Except Err Nat) × Option σ
  | _, st, [] => ([], some st)
  | first, st, pkt :: pkts =>
      let rest := pkts.flatten ++ tail
      let r := p.recv st pkt
      let call := (if ctx then pkt else pkt ++ rest, r.1)
      let more : σ → List (Bytes × Except Err Nat) × Option σ := fun st =>
        (call :: (handOver p ctx tail false st pkts).1, (handOver p ctx tail false st pkts).2)
      match r.1 with
      | .ok _ => more r.2
      | .error e =>
          let v := p.onError first (pkt ++ rest) e r.2
          match v.1 with
          | .discard => if ctx then more v.2 else ([call], none)
          | _ => ([call], none)

theorem loop_inl {alloc : Nat → Alloc} {p : Procedure σ} {fuel : Nat} {w : Work σ} {c : Cursor}
    {r r' : Except Err Nat × Work σ} (h : loop alloc p fuel w c = some (.ok r)) (hne : c.pkt ≠ [])
    (hs : step alloc p w c = .ok (.inl r')) : r = r' := by
  rcases loop_cases h with ⟨hnil, -⟩ | ⟨_, -, -, hs' | ⟨w', c', hs', -⟩⟩
  · exact absurd hnil hne
  · rw [hs] at hs'
    cases hs'
    rfl
  · rw [hs] at hs'
    cases hs'

theorem loop_inr {alloc : Nat → Alloc} {p : Procedure σ} {fuel : Nat} {w w' : Work σ} {c c' : Cursor}
    {r : Except Err Nat × Work σ} (h : loop alloc p fuel w c = some (.ok r)) (hne : c.pkt ≠ [])
    (hs : step alloc p w c = .ok (.inr (w', c'))) :
    ∃ fuel', fuel = fuel' + 1 ∧ loop alloc p fuel' w' c' = some (.ok r) := by
  rcases loop_cases h with ⟨hnil, -⟩ | ⟨fuel', hfuel, -, hs' | ⟨w₁, c₁, hs', hloop⟩⟩
  · exact absurd hnil hne
  · rw [hs] at hs'
    cases hs'
  · rw [hs] at hs'
    cases hs'
    exact ⟨fuel', hfuel, hloop⟩

section LongPacket

variable {p : Procedure σ} (hp : Framed p) {pkt : Bytes} (hpkt : LongPacket pkt) (rest : Bytes)

include hpkt

theorem LongPacket.given_append (conn : Conn σ) :
    given conn (pkt ++ rest) = if conn.rxPktBufCtx then pkt else pkt ++ rest := by
  rw [given, hpkt.splitLen_append rest]
  by_cases hrest : rest = []
  · simp [hrest]
  · simp [hrest]

theorem LongPacket.copies_append (conn : Conn σ) :
    copies conn (pkt ++ rest) = (conn.rxPktBufCtx && !rest.isEmpty) := by
  rw [copies, hpkt.splitLen_append rest]
  cases rest <;> simp

include hp

theorem LongPacket.recv_append (st : σ) : p.recv st (pkt ++ rest) = p.recv st pkt := by
  by_cases hrest : rest = []
  · rw [hrest, List.append_nil]
  · have hk := hpkt.splitLen_append rest
    rw [if_neg hrest] at hk
    rw [← hp.own hk, List.take_left]

theorem LongPacket.recv_ok {st : σ} {n : Nat} (hr : (p.recv st pkt).1 = .ok n) : n = pkt.length ∧ 0 < n := by
  have hpos := List.length_pos_iff.mpr hpkt.ne_nil
  obtain ⟨nread, hd, hdec, hvn, hretry, hlen⟩ := hpkt
  have hn := hp.read hdec hvn hretry (Nat.le_of_eq hlen) hr
  omega

end LongPacket

/-- Nothing of the datagram was discarded so far, so that all counts of bytes agree. -/
structure Cursor.Exact (c : Cursor) : Prop where
  position : c.position = c.consumed
  first : c.isFirst = true ↔ c.consumed = 0

theorem Cursor.Exact.read {c c' : Cursor} {n : Nat} {copied : Bool} (h : c.Exact) (hn : 0 < n)
    (hconsumed : c'.consumed = c.consumed + n) (hcurrent : c'.current.isSome = (c.current.isSome || copied))
    (hoff : copied = false → c'.off = c.off + n) : c'.Exact := by
  have hpos := h.position
  simp only [Cursor.position] at hpos
  cases hc' : c'.current with
  | some id => exact ⟨by simp [Cursor.position, hc'], by simp [Cursor.isFirst, hc']; omega⟩
  | none =>
      rw [hc', Option.isSome_none] at hcurrent
      have hnone := Bool.or_eq_false_iff.mp hcurrent.symm
      rw [hnone.1, if_neg (by simp)] at hpos
      have hoff' := hoff hnone.2
      refine ⟨?_, ?_⟩
      · simp only [Cursor.position, hc', Option.isSome_none, Bool.false_eq_true, if_false]
        omega
      · simp only [Cursor.isFirst, hc', Option.isNone_none, decide_eq_true_eq, true_and]
        omega

/-- What is left when the packets are handed over: trailing bytes that are no packet of their own are
given to the handler, and a short header packet only once. -/
def Trailing (p : Procedure σ) (tail : Bytes) (calls : List (Bytes × Except Err Nat)) : Option σ → Prop
  | none => calls = []
  | some st =>
      (tail = [] → calls = []) ∧
        (tail ≠ [] → splitLen tail = none → ∃ more, calls = (tail, (p.recv st tail).1) :: more ∧
          (isLongForm tail = false → more = []))

theorem loop_calls_prefix {alloc : Nat → Alloc} {p : Procedure σ} {fuel : Nat} {w : Work σ} {c : Cursor}
    {r : Except Err Nat × Work σ} (hp : Framed p) (halloc : w.conn.rxPktBufCtx = true → ∀ n, alloc n = .gives)
    (h : loop alloc p fuel w c = some (.ok r)) : calls w.log <+: calls r.2.log := by
  induction fuel generalizing w c with
  | zero =>
      rcases loop_cases h with ⟨-, rfl⟩ | ⟨_, hfuel, -⟩
      · simp
      · cases hfuel
  | succ fuel ih =>
      rcases loop_cases h with ⟨-, rfl⟩ | ⟨_, -, hne, -⟩
      · simp
      rcases step_call halloc hp hne with ⟨r', hs, hcalls⟩ | ⟨w', c', hs, hctx, hcalls⟩
      · rw [loop_inl h hne hs, hcalls]
        exact List.prefix_append _ _
      · obtain ⟨_, hfuel, hloop⟩ := loop_inr h hne hs
        cases hfuel
        have hmore := ih (by rw [hctx]; exact halloc) hloop
        rw [hcalls] at hmore
        exact (List.prefix_append _ _).trans hmore

/-- At the trailing bytes. -/
theorem loop_trailing {alloc : Nat → Alloc} {p : Procedure σ} {fuel : Nat} {w : Work σ} {c : Cursor}
    {r : Except Err Nat × Work σ} (hp : Framed p) (halloc : w.conn.rxPktBufCtx = true → ∀ n, alloc n = .gives)
    (h : loop alloc p fuel w c = some (.ok r)) :
    ∃ t, calls r.2.log = calls w.log ++ t ∧ Trailing p c.pkt t (some w.conn.st) := by
  by_cases hne : c.pkt = []
  · rcases loop_cases h with ⟨-, rfl⟩ | ⟨_, -, hne', -⟩
    · exact ⟨[], by simp, fun _ => rfl, fun hne' => absurd hne hne'⟩
    · exact absurd hne hne'
  have hgiven : splitLen c.pkt = none → given w.conn c.pkt = c.pkt := by
    intro hk
    simp [given, hk]
  rcases step_call halloc hp hne with ⟨r', hs, hcalls⟩ | ⟨w', c', hs, hctx, hcalls⟩
  · rw [loop_inl h hne hs, hcalls]
    refine ⟨_, rfl, fun hnil => absurd hnil hne, fun _ hk => ⟨[], by rw [hgiven hk], fun _ => rfl⟩⟩
  · obtain ⟨fuel', -, hloop⟩ := loop_inr h hne hs
    obtain ⟨more, hmore⟩ := loop_calls_prefix hp (by rw [hctx]; exact halloc) hloop
    refine ⟨_ :: more, by rw [← hmore, hcalls, List.append_assoc]; rfl, fun hnil => absurd hnil hne, fun _ hk => ?_⟩
    refine ⟨more, by rw [hgiven hk], fun hshort => ?_⟩
    -- A short header packet is read to the end, so that there is no further round.
    cases hr : (p.recv w.conn.st c.pkt).1 with
    | error e =>
        cases hv : (p.onError c.isFirst c.pkt e (p.recv w.conn.st c.pkt).2).1 with
        | fail e' =>
            obtain ⟨_, hs', -⟩ := step_fail halloc hp hr hv
            rw [hs] at hs'
            cases hs'
        | drop res =>
            obtain ⟨_, hs', -⟩ := step_drop halloc hp hr hv
            rw [hs] at hs'
            cases hs'
        | discard =>
            obtain ⟨_, hs', -⟩ := step_discard_last halloc hp hr hv (by simp [copies, hk])
            rw [hs] at hs'
            cases hs'
    | ok n =>
        by_cases hz : p.stopsAtZero = true ∧ n = 0
        · obtain ⟨-, rfl⟩ := hz
          obtain ⟨_, hs', -⟩ := step_stop halloc hp hne hr
          rw [hs] at hs'
          cases hs'
        · obtain ⟨_, _, hs', -, -, hpkt, -⟩ := step_read halloc hp hr hz
          rw [hs] at hs'
          cases hs'
          have hn : n = c.pkt.length := by
            rcases hp.short hshort hr with rfl | hn
            · exact absurd ⟨(hp.zero hne hr).1, rfl⟩ hz
            · exact hn
          rw [hn, List.drop_length] at hpkt
          rcases loop_cases hloop with ⟨-, rfl⟩ | ⟨_, -, hne', -⟩
          · rw [releaseRxPacketCopy_calls] at hmore
            exact List.append_right_eq_self.mp hmore
          · exact absurd hpkt hne'

theorem flatten_eq_nil {pkts : List Bytes} (hpkts : ∀ pkt ∈ pkts, LongPacket pkt) (h : pkts.flatten = []) : pkts = [] := by
  cases pkts with
  | nil => rfl
  | cons pkt pkts =>
      rw [List.flatten_cons, List.append_eq_nil_iff] at h
      exact absurd h.1 (hpkts pkt List.mem_cons_self).ne_nil

/-- The loop hands the packets over one after another. -/
theorem loop_handOver {alloc : Nat → Alloc} {p : Procedure σ} (hp : Framed p) {tail : Bytes} {pkts : List Bytes}
    (hpkts : ∀ pkt ∈ pkts, LongPacket pkt) {fuel : Nat} {w : Work σ} {c : Cursor} {r : Except Err Nat × Work σ}
    (halloc : w.conn.rxPktBufCtx = true → ∀ n, alloc n = .gives) (hc : c.pkt = pkts.flatten ++ tail)
    (h : loop alloc p fuel w c = some (.ok r)) :
    ∃ t, calls r.2.log =
        calls w.log ++ (handOver p w.conn.rxPktBufCtx tail c.isFirst w.conn.st pkts).1 ++ t ∧
      Trailing p tail t (handOver p w.conn.rxPktBufCtx tail c.isFirst w.conn.st pkts).2 := by
  induction pkts generalizing fuel w c with
  | nil =>
      obtain ⟨t, ht, htrailing⟩ := loop_trailing hp halloc h
      rw [hc] at htrailing
      exact ⟨t, by rw [ht, handOver, List.append_nil], htrailing⟩
  | cons pkt pkts ih =>
      have hpkt := hpkts pkt List.mem_cons_self
      have hmore : ∀ {fuel' : Nat} {w' : Work σ} {c' : Cursor} {call : Bytes × Except Err Nat},
          loop alloc p fuel' w' c' = some (.ok r) → w'.conn.rxPktBufCtx = w.conn.rxPktBufCtx → c'.isFirst = false →
          c'.pkt = pkts.flatten ++ tail → calls w'.log = calls w.log ++ [call] →
          ∃ t, calls r.2.log =
              calls w.log ++ (call :: (handOver p w.conn.rxPktBufCtx tail false w'.conn.st pkts).1) ++ t ∧
            Trailing p tail t (handOver p w.conn.rxPktBufCtx tail false w'.conn.st pkts).2 := by
        intro fuel' w' c' call hloop hctx hfirst hpkt' hcalls
        obtain ⟨t, ht, htrailing⟩ :=
          ih (fun q hq => hpkts q (List.mem_cons_of_mem pkt hq)) (by rw [hctx]; exact halloc) hpkt' hloop
        rw [hctx, hfirst] at ht htrailing
        exact ⟨t, by rw [ht, hcalls]; simp, htrailing⟩
      rw [List.flatten_cons, List.append_assoc] at hc
      have hne : c.pkt ≠ [] := by
        rw [hc]
        intro hnil
        exact hpkt.ne_nil (List.append_eq_nil_iff.mp hnil).1
      have hrecv := hpkt.recv_append hp (pkts.flatten ++ tail) w.conn.st
      have hgiven := hpkt.given_append (pkts.flatten ++ tail) w.conn
      have hcopies := hpkt.copies_append (pkts.flatten ++ tail) w.conn
      have hsplit := hpkt.splitLen_append (pkts.flatten ++ tail)
      rw [← hc] at hrecv hgiven hcopies hsplit
      simp only [handOver, ← hc]
      cases hr : (p.recv w.conn.st pkt).1 with
      | ok n =>
          obtain ⟨hlen, hpos⟩ := hpkt.recv_ok hp hr
          obtain ⟨w', c', hs, hconn, hcalls, hpkt', hconsumed, hcurrent, hoff⟩ :=
            step_read halloc hp (by rw [hrecv, hr]) (by omega)
          obtain ⟨fuel', -, hloop⟩ := loop_inr h hne hs
          rw [hrecv] at hconn
          rw [hgiven] at hcalls
          have hst : w'.conn.st = (p.recv w.conn.st pkt).2 := by rw [hconn]
          have hfirst : c'.isFirst = false := by
            cases hcur : c'.current with
            | some id => simp [Cursor.isFirst, hcur]
            | none =>
                rw [hcur] at hcurrent
                have hoff' := hoff (Bool.or_eq_false_iff.mp hcurrent.symm).2
                simp only [Cursor.isFirst, hcur, decide_eq_false_iff_not]
                omega
          have hthis := hmore hloop (by rw [hconn]) hfirst (by rw [hpkt', hc, hlen, List.drop_left]) hcalls
          rw [hst] at hthis
          exact hthis
      | error e =>
          have hr' : (p.recv w.conn.st c.pkt).1 = .error e := by rw [hrecv, hr]
          -- An error that ends the datagram is the last call.
          have hlast : ∀ {r' : Except Err Nat × Work σ}, step alloc p w c = .ok (.inl r') →
              calls r'.2.log = calls w.log ++ [(given w.conn c.pkt, .error e)] →
              ∃ t, calls r.2.log = calls w.log ++ [(if w.conn.rxPktBufCtx then pkt else c.pkt, .error e)] ++ t ∧ t = [] := by
            intro r' hs hcalls
            exact ⟨[], by rw [loop_inl h hne hs, hcalls, hgiven, List.append_nil], rfl⟩
          cases hv : (p.onError c.isFirst c.pkt e (p.recv w.conn.st pkt).2).1 with
          | fail e' =>
              obtain ⟨w', hs, -, hcalls⟩ := step_fail halloc hp hr' (by rw [hrecv]; exact hv)
              simp only [hv]
              exact hlast hs hcalls
          | drop res =>
              obtain ⟨w', hs, -, hcalls⟩ := step_drop halloc hp hr' (by rw [hrecv]; exact hv)
              simp only [hv]
              exact hlast hs hcalls
          | discard =>
              simp only [hv]
              cases hctx : w.conn.rxPktBufCtx with
              | false =>
                  obtain ⟨w', hs, -, hcalls⟩ := step_discard_last halloc hp hr' (by rw [hrecv]; exact hv) (by simp [copies, hctx])
                  have hthis := hlast hs hcalls
                  rw [hctx] at hthis
                  exact hthis
              | true =>
                  by_cases hrest : pkts.flatten ++ tail = []
                  · -- Nothing follows: there was no copy, and there is nothing left to hand over.
                    obtain ⟨hpkts', rfl⟩ := List.append_eq_nil_iff.mp hrest
                    obtain rfl := flatten_eq_nil (fun q hq => hpkts q (List.mem_cons_of_mem pkt hq)) hpkts'
                    obtain ⟨w', hs, -, hcalls⟩ :=
                      step_discard_last halloc hp hr' (by rw [hrecv]; exact hv) (by rw [hcopies]; simp)
                    obtain ⟨t, ht, rfl⟩ := hlast hs hcalls
                    rw [hctx] at ht
                    exact ⟨[], by simpa [handOver] using ht, fun _ => rfl, fun hne' => absurd rfl hne'⟩
                  · rw [if_neg hrest] at hsplit
                    obtain ⟨w', c', hs, hconn, hcalls, hpkt', -, hcurrent⟩ :=
                      step_discard_next halloc hp hr' (by rw [hrecv]; exact hv) hctx hsplit
                    obtain ⟨fuel', -, hloop⟩ := loop_inr h hne hs
                    rw [hrecv] at hconn
                    rw [hgiven] at hcalls
                    have hst : w'.conn.st = (p.onError c.isFirst c.pkt e (p.recv w.conn.st pkt).2).2 := by rw [hconn]
                    have hfirst : c'.isFirst = false := by
                      cases hcur : c'.current with
                      | some id => simp [Cursor.isFirst, hcur]
                      | none =>
                          rw [hcur] at hcurrent
                          cases hcurrent
                    have hthis := hmore hloop (by rw [hconn]) hfirst (by rw [hpkt', hc, List.drop_left]) hcalls
                    rw [hst, hctx] at hthis
                    exact hthis

end Zngtcp2.Cpkt
