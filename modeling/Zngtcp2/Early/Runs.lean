import Zngtcp2.Early.Steps

namespace Zngtcp2.EarlyData

open Lib.Run Strm StreamTx

/-- No MAX_DATA frame is due when a packet is written. -/
def Conn.NoMaxData (c : Conn) : Op → Prop
  | .writePkt _ => ¬c.shouldSendMaxData
  | _ => True

instance (c : Conn) (op : Op) : Decidable (c.NoMaxData op) := by
  cases op
  case writePkt => exact inferInstanceAs (Decidable (¬_))
  all_goals exact .isTrue trivial

/-- The connection, after its early data was rejected, is as `c₀`, which has sent none. -/
structure Restored (c₀ c : Conn) : Prop where
  strms : c.strms = c₀.strms
  strmq : c.strmq = c₀.strmq
  txOffset : c.txOffset = c₀.txOffset
  lastBlockedOffset : c.lastBlockedOffset = c₀.lastBlockedOffset
  rxMaxOffset : c.rxMaxOffset = c₀.rxMaxOffset
  rxUnsentMaxOffset : c.rxUnsentMaxOffset = c₀.rxUnsentMaxOffset
  rxWindow : c.rxWindow = c₀.rxWindow
  lastMaxDataTs : c.lastMaxDataTs = c₀.lastMaxDataTs
  remoteBidi : c.remoteBidi = c₀.remoteBidi
  remoteUni : c.remoteUni = c₀.remoteUni
  nextBidi : c.nextBidi = c₀.nextBidi
  nextUni : c.nextUni = c₀.nextUni
  frq : c.frq = c₀.frq
  datagrams : ∀ e ∈ c.rtb.rtb.ents, Frame.datagram ∉ c.frames e.pktNum
  noEarlyData : ∀ e ∈ c.rtb.rtb.ents, e.type ≠ .zeroRtt
  counts : RtbTx.Counts c.rtb.rtb.ccPktNum c.rtb.rtb.counters c.rtb.rtb.ents
  bytesInFlight : c.rtb.rtb.counters.bytesInFlight =
    c₀.rtb.rtb.counters.bytesInFlight + (c.rtb.rtb.ents.map (RtbTx.Entry.flight c.rtb.rtb.ccPktNum)).sum

/-- The window was not tuned. -/
def Conn.Untuned (c : Conn) : Prop :=
  c.rxWindow = c.params.initialMaxData ∧ c.lastMaxDataTs = uint64Max

theorem Steady.untuned_iff {c c' : Conn} (h : Steady c c') : c'.Untuned ↔ c.Untuned := by
  rw [Conn.Untuned, h.params, h.rxWindow, h.lastMaxDataTs, Conn.Untuned]

namespace Conn

variable {c c' : Conn}

/-- The operations other than writing a packet. -/
theorem step_quiet {op : Op} (hext : op.external = false) (hw : ∀ w, op ≠ .writePkt w) (h : c.step op = .ok c') :
    Quiet c c' := by
  cases op with
  | openBidiStream =>
      cases h
      exact c.openBidiStream_quiet
  | openUniStream =>
      cases h
      exact c.openUniStream_quiet
  | shutdownStreamWrite sid =>
      cases h
      exact c.shutdownStreamWrite_quiet sid
  | shutdownStreamRead sid =>
      cases h
      exact c.shutdownStreamRead_quiet sid
  | extendMaxStreamOffset sid datalen =>
      cases h
      exact c.extendMaxStreamOffset_quiet sid datalen
  | extendMaxOffset datalen =>
      cases h
      exact ⟨rfl, rfl, rfl, rfl, rfl, id⟩
  | extendMaxStreamsBidi n =>
      cases h
      exact ⟨rfl, rfl, rfl, rfl, rfl, id⟩
  | extendMaxStreamsUni n =>
      cases h
      exact ⟨rfl, rfl, rfl, rfl, rfl, id⟩
  | submitStreamBuf sid data fin => exact submitStreamBuf_quiet h
  | writePkt w => exact absurd rfl (hw w)
  | onRetry => cases hext
  | others bytes => cases hext

/-- Without 0-RTT packets the connection is one that has just been made. -/
theorem step_omit {k : Nat} {op : Op} (hext : op.external = false) (hinv : Inv k c) (h : c.step op = .ok c') : Inv k c' := by
  by_cases hw : ∃ w, op = .writePkt w
  · obtain ⟨w, rfl⟩ := hw
    exact (writePkt_spec h).2 hinv
  · exact hinv.quiet (step_quiet hext (fun w heq => hw ⟨w, heq⟩) h)

theorem step_external {p : Params} {k : Nat} {op : Op} (hext : op.external = true) (hinv : Inv k c)
    (h : c.step op = .ok c') : ∃ k', (Conn.new p k).step op = .ok (.new p k') ∧ Inv k' c' ∧ Steady c c' := by
  cases op with
  | onRetry =>
      obtain ⟨hsteady, hinv'⟩ := onRetry_spec h hinv
      exact ⟨0, rfl, hinv', hsteady⟩
  | others bytes =>
      have hrtb := RtbTx.State.step_inv c.rtb (.others bytes) hinv.rtb trivial
      cases h
      exact ⟨bytes, by simp [step, new, RtbTx.State.init, RtbTx.State.step, RtbTx.Rtb.init, bind, Except.bind],
        ⟨hinv.queued, hrtb, hinv.ccPktNum, Nat.add_comm _ _, hinv.frames⟩, rfl, rfl, rfl⟩
  | _ => cases hext

theorem step_params {op : Op} {k : Nat} (hinv : Inv k c) (h : c.step op = .ok c') : c'.params = c.params := by
  cases hext : op.external with
  | true =>
      obtain ⟨_, -, -, hsteady⟩ := @step_external c c' c.params k op hext hinv h
      exact hsteady.params
  | false =>
      by_cases hw : ∃ w, op = .writePkt w
      · obtain ⟨w, rfl⟩ := hw
        exact (@writePkt_spec k _ _ _ h).1.params.trans (queueMaxData_params w.ts w.smoothedRtt)
      · exact (step_quiet hext (fun w heq => hw ⟨w, heq⟩) h).params

/-- A packet with a MAX_DATA frame leaves its time behind. -/
theorem step_untuned_iff {op : Op} {k : Nat} (hinv : Inv k c) (hts : ∀ w, op = .writePkt w → w.ts < uint64Max)
    (h : c.step op = .ok c') : c'.Untuned ↔ c.Untuned ∧ c.NoMaxData op := by
  cases hext : op.external with
  | true =>
      obtain ⟨_, -, -, hsteady⟩ := @step_external c c' c.params k op hext hinv h
      rw [hsteady.untuned_iff]
      cases op with
      | onRetry => exact (and_true _).symm ▸ Iff.rfl
      | others bytes => exact (and_true _).symm ▸ Iff.rfl
      | _ => cases hext
  | false =>
      by_cases hw : ∃ w, op = .writePkt w
      · obtain ⟨w, rfl⟩ := hw
        have hsteady := (@writePkt_spec k _ _ _ h).1
        rw [hsteady.untuned_iff]
        by_cases hmax : c.shouldSendMaxData
        · have hlt := hts w rfl
          refine ⟨fun hu => ?_, fun hu => absurd hmax hu.2⟩
          have heq := hu.2
          rw [queueMaxData_ts hmax] at heq
          omega
        · rw [queueMaxData_eq hmax]
          exact ⟨fun hu => ⟨hu, hmax⟩, And.left⟩
      · have hquiet := step_quiet hext (fun w heq => hw ⟨w, heq⟩) h
        rw [hquiet.steady.untuned_iff]
        refine ⟨fun hu => ⟨hu, ?_⟩, And.left⟩
        cases op with
        | writePkt w => exact absurd ⟨w, rfl⟩ hw
        | _ => trivial

/-- The rejection discards everything but the tuning of the window. -/
theorem discardEarlyDataState_spec {k : Nat} (hinv : Inv k c) :
    ∃ c', c.discardEarlyDataState = .ok c' ∧ (Restored (.new c.params k) c' ↔ c.Untuned) := by
  obtain ⟨r, hrun, hkept⟩ := hinv.rtb.sound.removeEarlyData
  have hstep : c.rtb.step .removeEarlyData = .ok { c.rtb with rtb := r } := by
    rw [RtbTx.State.step, hrun]
    rfl
  rw [discardEarlyDataState, hstep]
  obtain ⟨⟨counters, ents⟩, hdrop, hrun⟩ := bind_ok hrun
  cases hrun
  obtain ⟨hothers, rfl⟩ := RtbTx.Rtb.dropEarlyData_spec hinv.others hdrop
  refine ⟨_, rfl, fun h => ⟨h.rxWindow, h.lastMaxDataTs⟩, fun h => ?_⟩
  have hearly : ∀ e ∈ c.rtb.rtb.ents.filter (fun e => e.type ≠ .zeroRtt), e ∈ c.rtb.rtb.ents ∧ e.type ≠ .zeroRtt := by
    intro e he
    simpa using he
  refine ⟨rfl, ?_, rfl, rfl, rfl, rfl, h.1, h.2, rfl, rfl, rfl, rfl, rfl, ?_, fun e he => (hearly e he).2,
    hkept.sound.counts, ?_⟩
  · refine List.filter_eq_nil_iff.mpr fun sid hsid => ?_
    rw [Option.isNone_eq_false_iff.mpr (hinv.queued sid hsid)]
    exact Bool.false_ne_true
  · intro e he
    have hnone : c.frames e.pktNum = [] := hinv.frames e (hearly e he).1 (hearly e he).2
    change Frame.datagram ∉ c.frames e.pktNum
    rw [hnone]
    exact List.not_mem_nil
  · change counters.bytesInFlight = k + _
    rw [← hkept.sound.counts.flight]
    exact hothers

/-- Every run of a client before its early data is rejected keeps the invariant, and the same run
without the 0-RTT packets leaves the connection as it was made. -/
theorem run_inv {p : Params} {k : Nat} {ops : List Op} (hrun : run step (.new p k) ops = .ok c) :
    ∃ k', run step (.new p k) (ops.filter Op.external) = .ok (.new p k') ∧ Inv k' c ∧ c.params = p := by
  have hsim := @run_filter Conn Op Stop step Op.external
    (fun c c₀ => ∃ k', c₀ = .new p k' ∧ Inv k' c ∧ c.params = p) ?_ ?_ (.new p k) c (.new p k)
    ⟨k, rfl, new_inv p k, rfl⟩ ops hrun
  · obtain ⟨_, hfilter, k', rfl, hinv, hp⟩ := hsim
    exact ⟨k', hfilter, hinv, hp⟩
  · rintro s t op s' ⟨k', rfl, hinv, hp⟩ hext h
    obtain ⟨k'', hstep, hinv', hsteady⟩ := @step_external s s' p k' op hext hinv h
    exact ⟨_, hstep, k'', rfl, hinv', hsteady.params.trans hp⟩
  · rintro s t op s' ⟨k', rfl, hinv, hp⟩ hext h
    exact ⟨k', rfl, step_omit hext hinv h, (step_params hinv h).trans hp⟩

theorem run_untuned_iff {p : Params} {k : Nat} {ops : List Op} (hts : ∀ w, .writePkt w ∈ ops → w.ts < uint64Max)
    (hrun : run step (.new p k) ops = .ok c) : c.Untuned ↔ Guarded step NoMaxData (.new p k) ops := by
  have hiff := @run_iff_guarded Conn Op Stop step NoMaxData (fun c => ∃ k', Inv k' c) Untuned ops ?_ (.new p k) c
    ⟨k, new_inv p k⟩ hrun
  · have hnew : (new p k).Untuned := ⟨rfl, rfl⟩
    rw [hiff]
    exact ⟨And.right, fun hg => ⟨hnew, hg⟩⟩
  · rintro op hop s s' ⟨k', hinv⟩ h
    have hw : ∀ w, op = .writePkt w → w.ts < uint64Max := fun w heq => hts w (heq ▸ hop)
    refine ⟨?_, step_untuned_iff hinv hw h⟩
    cases hext : op.external with
    | true =>
        obtain ⟨k'', -, hinv', -⟩ := @step_external s s' p k' op hext hinv h
        exact ⟨k'', hinv'⟩
    | false => exact ⟨k', step_omit hext hinv h⟩

/-- A client that is told that its early data was rejected is in the state of the same client
without 0-RTT packets, if and only if no MAX_DATA frame was due when it wrote one of them: the
rejection leaves `rx.window` and `tx.last_max_data_ts` as they are. -/
theorem earlyDataRejected_restores_iff (p : Params) (bytesInFlight : Nat) {ops : List Op}
    (hts : ∀ w, .writePkt w ∈ ops → w.ts < uint64Max) {c : Conn} (hrun : run step (.new p bytesInFlight) ops = .ok c) :
    ∃ c₀ c', run step (.new p bytesInFlight) (ops.filter Op.external) = .ok c₀ ∧ c.discardEarlyDataState = .ok c' ∧
      (Restored c₀ c' ↔ Guarded step NoMaxData (.new p bytesInFlight) ops) := by
  obtain ⟨k, hfilter, hinv, rfl⟩ := run_inv hrun
  obtain ⟨c', hdiscard, hiff⟩ := discardEarlyDataState_spec hinv
  exact ⟨_, c', hfilter, hdiscard, hiff.trans (run_untuned_iff hts hrun)⟩

/-- A session that was resumed: a window of 1000 bytes, which may grow to 4000. -/
def resumed : Params :=
  ⟨1000, 10, 10, 500, 4000, 4000, 2000, 800, 800, 10, 10, true⟩

/-- A packet with room for everything that is due on stream 0, for its new data, and for a DATAGRAM
frame. -/
def sample (ts : Nat) (data : List UInt8) : Write :=
  ⟨ts, 100, false, [true, true, true, true, true, true], [(0, some 100)], [.stream 0 data false (some 100), .datagram],
    true, false, 1200⟩

/-- Data, a limit for streams, and a reset, with a Retry packet in between. -/
def retried : List Op :=
  [.openBidiStream, .extendMaxStreamsUni 5, .submitStreamBuf 0 [1, 2, 3] false, .writePkt (sample 5 [4, 5]), .onRetry,
    .writePkt (sample 7 []), .shutdownStreamWrite 0, .extendMaxOffset 10, .writePkt (sample 8 []), .others 1200]

theorem earlyDataRejected_restores_retried :
    ∃ c c₀ c', run step (.new resumed 1200) retried = .ok c ∧ c.rtb.rtb.ents.length = 2 ∧
      c.discardEarlyDataState = .ok c' ∧ Restored c₀ c' := by
  obtain ⟨c, hc, hlen⟩ : ∃ c ∈ (run step (.new resumed 1200) retried).toOption, c.rtb.rtb.ents.length = 2 := by
    decide +kernel
  have hts : ∀ w, .writePkt w ∈ retried → w.ts < uint64Max := by
    intro w hw
    simp only [retried, List.mem_cons, Op.writePkt.injEq, reduceCtorEq, false_or, List.not_mem_nil, or_false] at hw
    rcases hw with rfl | rfl | rfl <;> decide
  obtain ⟨c₀, c', -, hdiscard, hiff⟩ := earlyDataRejected_restores_iff resumed 1200 hts (ok_of_toOption hc)
  exact ⟨c, c₀, c', ok_of_toOption hc, hlen, hdiscard, hiff.mpr (by decide +kernel)⟩

/-- The application extends the window by 300 bytes before each of two packets. -/
def tuned : List Op :=
  [.openBidiStream, .extendMaxOffset 300, .writePkt (sample 5 [1]), .extendMaxOffset 300, .writePkt (sample 6 [2])]

/-- After the rejection the window has twice its initial size, and the time of the MAX_DATA frame is
that of a packet which the server has thrown away. -/
theorem earlyDataRejected_keeps_window :
    ∃ c c₀ c', run step (.new resumed 0) tuned = .ok c ∧ run step (.new resumed 0) (tuned.filter Op.external) = .ok c₀ ∧
      c.discardEarlyDataState = .ok c' ∧ (c₀.rxWindow, c₀.lastMaxDataTs) = (1000, uint64Max) ∧
        (c'.rxWindow, c'.lastMaxDataTs) = (2000, 6) ∧ ¬Restored c₀ c' := by
  obtain ⟨c, hc, c₀, hc₀, c', hc', hfields₀, hfields⟩ : ∃ c ∈ (run step (.new resumed 0) tuned).toOption,
      ∃ c₀ ∈ (run step (.new resumed 0) (tuned.filter Op.external)).toOption, ∃ c' ∈ c.discardEarlyDataState.toOption,
        (c₀.rxWindow, c₀.lastMaxDataTs) = (1000, uint64Max) ∧ (c'.rxWindow, c'.lastMaxDataTs) = (2000, 6) := by
    decide +kernel
  refine ⟨c, c₀, c', ok_of_toOption hc, ok_of_toOption hc₀, ok_of_toOption hc', hfields₀, hfields, fun h => ?_⟩
  have hwindow := h.rxWindow
  rw [Prod.mk.injEq] at hfields₀ hfields
  rw [hfields₀.1, hfields.1] at hwindow
  exact absurd hwindow (by decide)

end Conn

end Zngtcp2.EarlyData
