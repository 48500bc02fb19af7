import Zngtcp2.Cpkt.Steps

namespace Zngtcp2.Cpkt

open Pkt

variable {σ : Type}

/-- The bytes behind the packet are copied. -/
def copies (conn : Conn σ) (pkt : Bytes) : Bool :=
  conn.rxPktBufCtx && (splitLen pkt).isSome

/-- The bytes the packet handler is given. -/
def given (conn : Conn σ) (pkt : Bytes) : Bytes :=
  if conn.rxPktBufCtx then pkt.take ((splitLen pkt).getD pkt.length) else pkt

/-- What the loop of the handshake takes for the offset of the packet in the datagram. -/
def Cursor.position (c : Cursor) : Nat :=
  if c.current.isSome then c.consumed else c.off

theorem calls_emit_alloc (log : List Event) (id : Nat) : calls (log ++ [.alloc id]) = calls log := by
  simp [calls]

@[simp]
theorem releaseRxPacketCopy_conn (w : Work σ) (o : Option Nat) : (w.releaseRxPacketCopy o).conn = w.conn := by
  cases o <;> rfl

@[simp]
theorem releaseRxPacketCopy_calls (w : Work σ) (o : Option Nat) :
    calls (w.releaseRxPacketCopy o).log = calls w.log := by
  cases o <;> simp [Work.releaseRxPacketCopy, Work.emit, calls]

theorem calls_emit_recv (log : List Event) (pkt : Bytes) (nread : Except Err Nat) :
    calls (log ++ [.recv pkt nread]) = calls log ++ [(pkt, nread)] := by
  simp [calls]

theorem recv_given {p : Procedure σ} (hp : Framed p) (st : σ) (conn : Conn σ) (pkt : Bytes) : p.recv st (given conn pkt) = p.recv st pkt := by
  rw [given]
  split
  · cases hk : splitLen pkt with
    | none => simp
    | some k => exact hp.own hk
  · rfl

-- The rounds in which every copy can be allocated.
section Rounds

variable {alloc : Nat → Alloc} {w : Work σ} (halloc : w.conn.rxPktBufCtx = true → ∀ n, alloc n = .gives)
  {p : Procedure σ} (hp : Framed p) {c : Cursor}

include halloc

theorem connSplitRxTrailing_gives (pkt : Bytes) :
    ∃ firstlen next w', connSplitRxTrailing alloc w pkt = (.ok (firstlen, next), w') ∧ w'.conn = w.conn ∧
      calls w'.log = calls w.log ∧ pkt.take firstlen = given w.conn pkt ∧ next.isSome = copies w.conn pkt ∧
      (next.isSome → splitLen pkt = some firstlen) ∧ (next = none → firstlen = pkt.length) := by
  rw [connSplitRxTrailing, given, copies]
  cases hctx : w.conn.rxPktBufCtx with
  | false => exact ⟨pkt.length, none, w, rfl, rfl, rfl, by simp, rfl, by simp, fun _ => rfl⟩
  | true =>
      cases hk : splitLen pkt with
      | none => exact ⟨pkt.length, none, w, by simp, rfl, rfl, by simp, rfl, by simp, fun _ => rfl⟩
      | some k =>
          simp only [Bool.true_eq_false, if_false, Work.allocRxPacketCopy, halloc hctx w.nalloc]
          refine ⟨k, some w.nalloc, _, rfl, rfl, ?_, by simp, rfl, fun _ => rfl, by simp⟩
          exact calls_emit_alloc _ _

include hp

/-- The packet is read: the loop goes on right behind it. -/
theorem step_read {n : Nat} (hr : (p.recv w.conn.st c.pkt).1 = .ok n) (hn : ¬(p.stopsAtZero = true ∧ n = 0)) :
    ∃ w' c', step alloc p w c = .ok (.inr (w', c')) ∧
      w'.conn = { w.conn with
        st := (p.recv w.conn.st c.pkt).2
        pktRecv := w.conn.pktRecv + 1
        bytesRecv := w.conn.bytesRecv + n } ∧
      calls w'.log = calls w.log ++ [(given w.conn c.pkt, .ok n)] ∧ c'.pkt = c.pkt.drop n ∧
      c'.consumed = c.consumed + n ∧ c'.current.isSome = (c.current.isSome || copies w.conn c.pkt) ∧
      (copies w.conn c.pkt = false → c'.off = c.off + n) := by
  obtain ⟨firstlen, next, w₁, hs, hconn, hcalls, hgiven, hnext, hsome, hnone⟩ :=
    connSplitRxTrailing_gives halloc c.pkt
  have hle := hp.le hr
  have hfirst : firstlen = if next.isSome then n else c.pkt.length := by
    cases next with
    | none => exact hnone rfl
    | some id => exact (hp.read_first (hsome rfl) hr).symm
  simp only [step, hs, recvNext, hconn, hgiven, recv_given hp, hr]
  rw [if_neg hn]
  cases next with
  | some id =>
      simp only [Option.isSome_some, if_true] at hfirst
      rw [if_neg (by omega)]
      refine ⟨_, _, rfl, by simp [Work.emit], ?_, by rw [hfirst], rfl, ?_, ?_⟩
      · rw [releaseRxPacketCopy_calls]
        simp only [Work.emit, calls_emit_recv, hcalls]
      · rw [← hnext]
        simp
      · rw [← hnext]
        simp
  | none =>
      simp only [Option.isSome_none, Bool.false_eq_true, if_false] at hfirst
      rw [if_neg (by omega)]
      refine ⟨_, _, rfl, rfl, ?_, rfl, rfl, ?_, fun _ => rfl⟩
      · simp only [Work.emit, calls_emit_recv, hcalls]
      · rw [← hnext]
        simp

/-- A 1-RTT packet that can be decrypted ends the loop of the handshake. -/
theorem step_stop (hne : c.pkt ≠ []) (hr : (p.recv w.conn.st c.pkt).1 = .ok 0) :
    ∃ w', step alloc p w c = .ok (.inl (.ok c.position, w')) ∧
      w'.conn = { w.conn with st := (p.recv w.conn.st c.pkt).2 } ∧
      calls w'.log = calls w.log ++ [(given w.conn c.pkt, .ok 0)] := by
  obtain ⟨firstlen, next, w₁, hs, hconn, hcalls, hgiven, -⟩ := connSplitRxTrailing_gives halloc c.pkt
  obtain ⟨hstop, hshort⟩ := hp.zero hne hr
  simp only [step, hs, recvNext, hconn, hgiven, recv_given hp, hr, hstop, hshort]
  simp only [and_self, if_true, Bool.false_eq_true, if_false, leave]
  refine ⟨_, rfl, by simp [Work.emit], ?_⟩
  simp only [releaseRxPacketCopy_calls, Work.emit, calls_emit_recv, hcalls]

/-- An error that is returned. -/
theorem step_fail {e e' : Err} (hr : (p.recv w.conn.st c.pkt).1 = .error e)
    (he : (p.onError c.isFirst c.pkt e (p.recv w.conn.st c.pkt).2).1 = .fail e') :
    ∃ w', step alloc p w c = .ok (.inl (.error e', w')) ∧
      w'.conn = { w.conn with st := (p.onError c.isFirst c.pkt e (p.recv w.conn.st c.pkt).2).2 } ∧
      calls w'.log = calls w.log ++ [(given w.conn c.pkt, .error e)] := by
  obtain ⟨firstlen, next, w₁, hs, hconn, hcalls, hgiven, -⟩ := connSplitRxTrailing_gives halloc c.pkt
  simp only [step, hs, recvNext, hconn, hgiven, recv_given hp, hr, he, leave]
  refine ⟨_, rfl, by simp [Work.emit], ?_⟩
  simp only [releaseRxPacketCopy_calls, Work.emit, calls_emit_recv, hcalls]

/-- A discarded packet that ends the datagram. -/
theorem step_drop {e : Err} {res : Except Err Nat} (hr : (p.recv w.conn.st c.pkt).1 = .error e)
    (he : (p.onError c.isFirst c.pkt e (p.recv w.conn.st c.pkt).2).1 = .drop res) :
    ∃ w', step alloc p w c = .ok (.inl (res, w')) ∧
      w'.conn = { w.conn with
        st := (p.onError c.isFirst c.pkt e (p.recv w.conn.st c.pkt).2).2
        pktDiscarded := w.conn.pktDiscarded + 1 } ∧
      calls w'.log = calls w.log ++ [(given w.conn c.pkt, .error e)] := by
  obtain ⟨firstlen, next, w₁, hs, hconn, hcalls, hgiven, -⟩ := connSplitRxTrailing_gives halloc c.pkt
  simp only [step, hs, recvNext, hconn, hgiven, recv_given hp, hr, he, leave]
  refine ⟨_, rfl, by simp [Work.emit], ?_⟩
  simp only [releaseRxPacketCopy_calls, Work.emit, calls_emit_recv, hcalls]

/-- A discarded packet behind which nothing was copied. -/
theorem step_discard_last {e : Err} (hr : (p.recv w.conn.st c.pkt).1 = .error e)
    (he : (p.onError c.isFirst c.pkt e (p.recv w.conn.st c.pkt).2).1 = .discard) (hcopy : copies w.conn c.pkt = false) :
    ∃ w', step alloc p w c = .ok (.inl (.ok p.res, w')) ∧
      w'.conn = { w.conn with
        st := (p.onError c.isFirst c.pkt e (p.recv w.conn.st c.pkt).2).2
        pktDiscarded := w.conn.pktDiscarded + 1 } ∧
      calls w'.log = calls w.log ++ [(given w.conn c.pkt, .error e)] := by
  obtain ⟨firstlen, next, w₁, hs, hconn, hcalls, hgiven, hnext, -⟩ := connSplitRxTrailing_gives halloc c.pkt
  rw [hcopy] at hnext
  cases next with
  | some id => cases hnext
  | none =>
      simp only [step, hs, recvNext, hconn, hgiven, recv_given hp, hr, he, leave]
      refine ⟨_, rfl, by simp [Work.emit], ?_⟩
      simp only [releaseRxPacketCopy_calls, Work.emit, calls_emit_recv, hcalls]

/-- A discarded packet behind which the bytes were copied. -/
theorem step_discard_next {e : Err} {k : Nat} (hr : (p.recv w.conn.st c.pkt).1 = .error e)
    (he : (p.onError c.isFirst c.pkt e (p.recv w.conn.st c.pkt).2).1 = .discard) (hctx : w.conn.rxPktBufCtx = true)
    (hk : splitLen c.pkt = some k) :
    ∃ w' c', step alloc p w c = .ok (.inr (w', c')) ∧
      w'.conn = { w.conn with
        st := (p.onError c.isFirst c.pkt e (p.recv w.conn.st c.pkt).2).2
        pktDiscarded := w.conn.pktDiscarded + 1 } ∧
      calls w'.log = calls w.log ++ [(given w.conn c.pkt, .error e)] ∧ c'.pkt = c.pkt.drop k ∧
      c'.consumed = c.consumed ∧ c'.current.isSome = true := by
  obtain ⟨firstlen, next, w₁, hs, hconn, hcalls, hgiven, hnext, hsome, -⟩ := connSplitRxTrailing_gives halloc c.pkt
  have hcopy : copies w.conn c.pkt = true := by simp [copies, hctx, hk]
  rw [hcopy] at hnext
  cases next with
  | none => cases hnext
  | some id =>
      have hfirst : firstlen = k := by
        have heq := (hsome rfl).symm.trans hk
        exact Option.some.inj heq
      simp only [step, hs, recvNext, hconn, hgiven, recv_given hp, hr, he]
      refine ⟨_, _, rfl, by simp [Work.emit], ?_, by rw [hfirst], rfl, rfl⟩
      simp only [releaseRxPacketCopy_calls, Work.emit, calls_emit_recv, hcalls]

/-- Every round calls the handler once, for the packet at the cursor. -/
theorem step_call (hne : c.pkt ≠ []) :
    (∃ r, step alloc p w c = .ok (.inl r) ∧
      calls r.2.log = calls w.log ++ [(given w.conn c.pkt, (p.recv w.conn.st c.pkt).1)]) ∨
    (∃ w' c', step alloc p w c = .ok (.inr (w', c')) ∧ w'.conn.rxPktBufCtx = w.conn.rxPktBufCtx ∧
      calls w'.log = calls w.log ++ [(given w.conn c.pkt, (p.recv w.conn.st c.pkt).1)]) := by
  cases hr : (p.recv w.conn.st c.pkt).1 with
  | ok n =>
      by_cases hz : p.stopsAtZero = true ∧ n = 0
      · obtain ⟨-, rfl⟩ := hz
        obtain ⟨w', hs, -, hcalls⟩ := step_stop halloc hp hne hr
        exact Or.inl ⟨_, hs, hcalls⟩
      · obtain ⟨w', c', hs, hconn, hcalls, -⟩ := step_read halloc hp hr hz
        exact Or.inr ⟨w', c', hs, by rw [hconn], hcalls⟩
  | error e =>
      cases hv : (p.onError c.isFirst c.pkt e (p.recv w.conn.st c.pkt).2).1 with
      | fail e' =>
          obtain ⟨w', hs, -, hcalls⟩ := step_fail halloc hp hr hv
          exact Or.inl ⟨_, hs, hcalls⟩
      | drop res =>
          obtain ⟨w', hs, -, hcalls⟩ := step_drop halloc hp hr hv
          exact Or.inl ⟨_, hs, hcalls⟩
      | discard =>
          cases hcopy : copies w.conn c.pkt with
          | false =>
              obtain ⟨w', hs, -, hcalls⟩ := step_discard_last halloc hp hr hv hcopy
              exact Or.inl ⟨_, hs, hcalls⟩
          | true =>
              rw [copies, Bool.and_eq_true, Option.isSome_iff_exists] at hcopy
              obtain ⟨hctx, k, hk⟩ := hcopy
              obtain ⟨w', c', hs, hconn, hcalls, -⟩ := step_discard_next halloc hp hr hv hctx hk
              exact Or.inr ⟨w', c', hs, by rw [hconn], hcalls⟩

end Rounds

end Zngtcp2.Cpkt
