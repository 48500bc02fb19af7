import Zngtcp2.Cubic.Steps

namespace Zngtcp2.Cubic.Conn

open Lib.Run
open RateSample (Rst Rs)

variable {max : Nat} {c : Conn}

theorem Inv.onAckRecv (h : Inv max c) (hmax : Sized max) {ack : CcAck} (hrenewed : c.Avoids ack → c.cc.current.collapsed = false)
    (hcwnd : c.stat.cwnd < 2 ^ 30) (hbytes : ack.bytesDelivered < 2 ^ 47) :
    ∃ c', c.onAckRecv ack c.now = .ok c' ∧ Inv max c' := by
  simp only [Conn.onAckRecv]
  split
  · exact ⟨c, rfl, h⟩
  · rename_i hcounts
    have hround := h.startRound (decide (c.cc.nextRoundDelivered ≤ ack.pktDelivered))
    obtain ⟨hstat, hcurrent, hnow⟩ := startRound_core c (decide (c.cc.nextRoundDelivered ≤ ack.pktDelivered))
    rw [← hnow]
    split
    · rename_i hslow
      exact hround.slowStart hmax (by rwa [hstat]) (by rwa [hstat]) hbytes _ _
    · rename_i havoids
      have havoids := Nat.not_lt.mp havoids
      rw [not_or, Bool.not_eq_true] at hcounts
      have hcollapsed := hrenewed ⟨hcounts.1, hcounts.2, havoids⟩
      exact hround.avoidCongestion hmax (by rwa [hcurrent]) (by rwa [hstat]) (by rwa [hstat]) hbytes _

theorem reducedSsthresh_ok (h : Inv max c) (hcwnd : c.stat.cwnd < 2 ^ 30) (ack : CcAck) :
    ∃ ssthresh, c.reducedSsthresh ack = .ok ssthresh ∧ 2 * max ≤ ssthresh ∧
      ssthresh ≤ Max.max (c.stat.cwnd * 7 / 10) (2 * max) := by
  have hdelivered := h.delivered_lt
  rw [reducedSsthresh, mul_ok (by omega), ok_bind]
  dsimp only
  rw [mul_ok (by omega), ok_bind, h.size]
  refine ⟨_, rfl, Nat.le_max_right _ _, max_le_max_right _ ?_⟩
  split
  · exact Nat.min_le_left _ _
  · exact Nat.le_refl _

theorem reducedWMax_ok (h : Inv max c) (hcwnd : c.stat.cwnd < 2 ^ 30) :
    ∃ wMax, c.reducedWMax = .ok wMax ∧ Max.max (c.stat.cwnd * 7 / 10) (2 * max) ≤ wMax ∧ wMax ≤ c.stat.cwnd := by
  have htwo := h.current.two_le
  rw [reducedWMax, h.size]
  split
  · rw [mul_ok (by omega), ok_bind]
    exact ⟨_, rfl, max_le_max_right _ (by omega), by omega⟩
  · exact ⟨_, rfl, max_le_max_right _ (by omega), by omega⟩

/-- A congestion event begins an epoch. -/
theorem Inv.newEpoch (h : Inv max c) (stat : Stat) {v : CubicVars}
    (hsize : stat.maxTxUdpPayloadSize = c.stat.maxTxUdpPayloadSize) (hrtt : stat.smoothedRtt = c.stat.smoothedRtt)
    (hv : v.Suits max stat.cwnd stat.ssthresh c.now (c.now :: c.epochs)) (undo : Undo)
    (hundo : undo.cwnd ≠ 0 → undo.v.Suits max undo.cwnd undo.ssthresh c.now c.epochs) :
    Inv max { c with cc.current := v, cc.undo := undo, stat := stat, epochs := c.now :: c.epochs } := by
  have hepoch := h.withEpoch
  exact ⟨hsize.trans h.size, hv, fun hne => (hundo hne).cons _, hepoch.epochs, h.start_le, h.now_lt,
    hrtt.trans_lt h.smoothedRtt_lt, h.delivered_lt⟩

theorem Inv.congestionEvent (h : Inv max c) (hmax : Sized max) (hcwnd : c.stat.cwnd < 2 ^ 30) (sentTs : Nat) (ack : CcAck) :
    ∃ c', c.congestionEvent sentTs ack c.now = .ok c' ∧ Inv max c' := by
  rw [Conn.congestionEvent]
  split
  · exact ⟨c, rfl, h⟩
  · obtain ⟨ssthresh, hssthresh, hlow, hhigh⟩ := reducedSsthresh_ok h hcwnd ack
    obtain ⟨wMax, hwMax, hge, hle⟩ := reducedWMax_ok h hcwnd
    have hle' := Nat.le_trans hhigh hge
    have hsize := hmax.le
    obtain ⟨kM, hkM⟩ := computeKM_ok hmax h.size (show wMax - ssthresh < 2 ^ 30 by omega)
    obtain ⟨interval, quantum, hrate⟩ := setPacingRate_ok
      (s := { c.stat with congestionRecoveryStartTs := c.now, ssthresh := ssthresh, cwnd := ssthresh })
      (by dsimp only; omega) h.smoothedRtt_lt
    rw [hwMax, ok_bind, hssthresh, ok_bind, if_neg (Nat.not_lt.mpr hle'), hkM, ok_bind, hrate, ok_bind]
    refine ⟨_, rfl, ?_⟩
    have hv : CubicVars.Suits ⟨c.stat.cwnd, wMax, kM, c.now, ssthresh, uint64Max, 0, 0, 0, false⟩ max ssthresh ssthresh
        c.now (c.now :: c.epochs) :=
      { two_le := hlow
        two_le_ssthresh := hlow
        cwnd_lt := Nat.lt_trans (Nat.lt_of_le_of_lt (Nat.le_trans hle' hle) hcwnd) (by decide)
        wMax_lt := Nat.lt_trans (Nat.lt_of_le_of_lt hle hcwnd) (by decide)
        wEst_le := Or.inr (Nat.le_refl _)
        pending_lt := Nat.pow_pos Nat.two_pos
        pendingEst_lt := Nat.pow_pos Nat.two_pos
        collapsed := fun hfalse => nomatch hfalse
        fresh := fun _ => ⟨rfl, rfl⟩
        unlimited := fun _ hlt => absurd hlt (Nat.lt_irrefl _)
        epoch := fun _ _ => ⟨List.mem_cons_self, Nat.le_refl _, by
          rw [CubicVars.Clocked, if_pos rfl]
          exact Nat.le_refl _⟩ }
    by_cases hundo : c.cc.undo.cwnd < c.stat.cwnd
    · rw [saveUndo, if_pos hundo]
      exact h.newEpoch { c.stat with
        congestionRecoveryStartTs := c.now, ssthresh := ssthresh, cwnd := ssthresh
        pacingIntervalM := interval, sendQuantum := quantum } rfl rfl hv
        ⟨c.cc.current, c.stat.cwnd, c.stat.ssthresh⟩ fun _ => h.current
    · rw [saveUndo, if_neg hundo]
      exact h.newEpoch { c.stat with
        congestionRecoveryStartTs := c.now, ssthresh := ssthresh, cwnd := ssthresh
        pacingIntervalM := interval, sendQuantum := quantum } rfl rfl hv c.cc.undo h.undo

theorem Inv.onSpuriousCongestion (h : Inv max c) :
    ∃ c', c.onSpuriousCongestion = .ok c' ∧ Inv max c' := by
  rw [Conn.onSpuriousCongestion]
  dsimp only
  split
  · rename_i hlt
    have hundo := h.undo (Nat.ne_of_gt (Nat.zero_lt_of_lt hlt))
    obtain ⟨interval, quantum, hrate⟩ := setPacingRate_ok (s := { c.stat with
      congestionRecoveryStartTs := uint64Max, cwnd := c.cc.undo.cwnd, ssthresh := c.cc.undo.ssthresh })
      (Nat.zero_lt_of_lt hlt) h.smoothedRtt_lt
    rw [hrate, ok_bind]
    exact ⟨_, rfl, h.size, hundo, fun hne => absurd rfl hne, h.epochs, h.start_le, h.now_lt, h.smoothedRtt_lt, h.delivered_lt⟩
  · exact ⟨_, rfl, h.size, h.current, fun hne => absurd rfl hne, h.epochs, h.start_le, h.now_lt, h.smoothedRtt_lt,
      h.delivered_lt⟩

theorem Inv.onPersistentCongestion (h : Inv max c) (hmax : Sized max) :
    ∃ c', c.onPersistentCongestion = .ok c' ∧ Inv max c' := by
  have hsize := hmax.le
  have htwo := h.current.two_le
  have hcwnd : c.stat.cwnd ≠ 0 := by omega
  rw [Conn.onPersistentCongestion, cubicReset, Stat.initPacingRate, if_neg hcwnd, ok_bind, ok_bind]
  dsimp only
  obtain ⟨interval, quantum, hrate⟩ := setPacingRate_ok (s := { c.stat with
    pacingIntervalM := Max.max (milliseconds * 1024 * 100 / 125 / c.stat.cwnd) 1
    sendQuantum := 10 * c.stat.maxTxUdpPayloadSize
    cwnd := 2 * c.stat.maxTxUdpPayloadSize
    congestionRecoveryStartTs := uint64Max }) (by dsimp only; rw [h.size]; omega) h.smoothedRtt_lt
  rw [hrate, ok_bind]
  refine ⟨_, rfl, h.size, ?_, fun hne => absurd rfl hne, h.epochs, h.start_le, h.now_lt, h.smoothedRtt_lt, h.delivered_lt⟩
  dsimp only
  rw [h.size]
  exact {
    two_le := Nat.le_refl _
    two_le_ssthresh := h.current.two_le_ssthresh
    cwnd_lt := Nat.lt_of_le_of_lt (Nat.mul_le_mul_left 2 hmax.ge) (by decide)
    wMax_lt := Nat.pow_pos Nat.two_pos
    wEst_le := Or.inl (Nat.pow_pos Nat.two_pos)
    pending_lt := Nat.pow_pos Nat.two_pos
    pendingEst_lt := Nat.pow_pos Nat.two_pos
    collapsed := fun _ => rfl
    fresh := fun _ => ⟨rfl, rfl⟩
    unlimited := fun hfalse => nomatch hfalse
    epoch := fun hfalse => nomatch hfalse }

theorem computeInitcwnd_bounds (hmax : Sized max) : 2 * max ≤ computeInitcwnd max ∧ computeInitcwnd max < 2 ^ 54 := by
  have hge := hmax.ge
  rw [computeInitcwnd]
  omega

/-- The statistics have been reset. -/
theorem cubicReset_inv (hmax : Sized max) {initialRtt : Nat} (hrtt : initialRtt < 2 ^ 45)
    (hstat : c.stat = .reset max initialRtt) (hepochs : ∀ epoch ∈ c.epochs, c.start ≤ epoch ∧ epoch ≤ c.now)
    (hstart : c.start ≤ c.now) (hnow : c.now < c.start + 2 ^ 45 ∧ c.now < uint64Max)
    (hdelivered : c.rst.rs.delivered < 2 ^ 47) : ∃ c', c.cubicReset = .ok c' ∧ Inv max c' := by
  obtain ⟨htwo, hlt⟩ := computeInitcwnd_bounds hmax
  have hsize := hmax.le
  have hpos : (Stat.reset max initialRtt).cwnd ≠ 0 := Nat.ne_of_gt (Nat.lt_of_lt_of_le (by omega) htwo)
  have hword : computeInitcwnd max < uint64Max := Nat.lt_trans hlt (by decide)
  rw [cubicReset, hstat, Stat.initPacingRate, if_neg hpos, ok_bind]
  refine ⟨_, rfl, rfl, ?_, fun hne => absurd rfl hne, hepochs, hstart, hnow, hrtt, hdelivered⟩
  exact {
    two_le := htwo
    two_le_ssthresh := Nat.le_trans htwo (Nat.le_of_lt hword)
    cwnd_lt := hlt
    wMax_lt := Nat.pow_pos Nat.two_pos
    wEst_le := Or.inl (Nat.pow_pos Nat.two_pos)
    pending_lt := Nat.pow_pos Nat.two_pos
    pendingEst_lt := Nat.pow_pos Nat.two_pos
    collapsed := fun hfalse => nomatch hfalse
    fresh := fun _ => ⟨rfl, rfl⟩
    unlimited := fun _ _ => rfl
    epoch := fun _ hle => absurd hword (Nat.not_lt.mpr hle) }

theorem init_inv (hmax : Sized max) {initialRtt ts : Nat} (hrtt : initialRtt < 2 ^ 45) (hts : ts < uint64Max) :
    ∃ c, init max initialRtt ts = .ok c ∧ Inv max c :=
  cubicReset_inv hmax hrtt rfl (fun _ hmem => nomatch hmem) (Nat.le_refl _) ⟨Nat.lt_add_of_pos_right (by decide), hts⟩
    (show Rst.init.rs.delivered < 2 ^ 47 by decide)

theorem step_inv (h : Inv max c) (hmax : Sized max) {i : Nat × Event} (hallowed : c.Allowed i) (hrenewed : c.Renewed i) :
    ∃ c', c.step i = .ok c' ∧ Inv max c' := by
  obtain ⟨ts, ev⟩ := i
  obtain ⟨hnow, hrun, hts, hcwnd, hev⟩ := hallowed
  have h := h.later hnow ⟨hrun, hts⟩
  rw [Conn.step]
  cases ev with
  | measure bytesInFlight firstRttSampleTs smoothedRtt rst =>
      exact ⟨_, rfl, h.size, h.current, h.undo, h.epochs, h.start_le, h.now_lt, hev.1, hev.2⟩
  | ackRecv ack => exact h.onAckRecv hmax hrenewed hcwnd hev
  | congestionEvent sentTs ack => exact h.congestionEvent hmax hcwnd sentTs ack
  | spuriousCongestion => exact h.onSpuriousCongestion
  | persistentCongestion => exact h.onPersistentCongestion hmax
  | reset initialRtt =>
      exact cubicReset_inv hmax hev (by rw [← h.size]) h.epochs h.start_le h.now_lt h.delivered_lt

/-- The variables that a persistent congestion has reset have no epoch, and all others that are used have one. -/
theorem Inv.timed_iff (h : Inv max c) {i : Nat × Event} (hallowed : c.Allowed i) : c.Timed i ↔ c.Renewed i := by
  obtain ⟨ts, ev⟩ := i
  obtain ⟨hnow, hrun, hts, -, -⟩ := hallowed
  cases ev with
  | ackRecv ack =>
      refine forall_congr' fun havoids => ?_
      constructor
      · rintro ⟨hepoch, -⟩
        rw [← Bool.not_eq_true]
        exact fun hcollapsed => hepoch (h.current.collapsed hcollapsed)
      · intro hcollapsed
        obtain ⟨hle, htime, hmem, -⟩ := (h.later hnow ⟨hrun, hts⟩).elapsed hcollapsed havoids.2.2 (show 0 < 2 ^ 45 by decide)
        rw [add64_zero] at htime
        have hepoch := (h.epochs _ hmem).2
        exact ⟨Nat.ne_of_lt (Nat.lt_of_le_of_lt hepoch h.now_lt.2), hmem, hle, htime⟩
  | measure | congestionEvent | spuriousCongestion | persistentCongestion | reset => exact Iff.rfl

/-- In every run within the bounds no callback stops, the window is never too small and the time since the epoch is
always the real one, if and only if no acknowledgement after a persistent congestion takes the congestion-avoidance
branch too early. -/
theorem epoch_timed_iff (hmax : Sized max) {initialRtt ts : Nat} (hrtt : initialRtt < 2 ^ 45) (hts : ts < uint64Max) :
    ∃ c, init max initialRtt ts = .ok c ∧ ∀ is : List (Nat × Event), Guarded step Allowed c is →
      ((∃ c', run step c is = .ok c' ∧ 2 * max ≤ c'.stat.cwnd) ∧
          Guarded step (fun c i => 2 * max ≤ c.stat.cwnd ∧ c.Timed i) c is ↔
        Guarded step Renewed c is) := by
  obtain ⟨c, hinit, hinv⟩ := init_inv hmax hrtt hts
  refine ⟨c, hinit, fun is hallowed => ?_⟩
  have hiff : ∀ (c : Conn) (i : Nat × Event), Inv max c → c.Allowed i →
      (2 * max ≤ c.stat.cwnd ∧ c.Timed i ↔ c.Renewed i) := by
    intro c i h hallowed
    rw [h.timed_iff hallowed]
    exact and_iff_right h.current.two_le
  have hstep : ∀ (c : Conn) (i : Nat × Event) (c' : Conn), Inv max c → c.Allowed i →
      (2 * max ≤ c.stat.cwnd ∧ c.Timed i) → c.step i = .ok c' → Inv max c' := by
    intro c i c' h hallowed htimed hok
    obtain ⟨c'', hok', hinv⟩ := step_inv h hmax hallowed ((hiff c i h hallowed).mp htimed)
    rw [hok] at hok'
    cases hok'
    exact hinv
  rw [hallowed.congr hiff hstep hinv]
  apply and_iff_right_of_imp
  intro hrenewed
  have hnext : ∀ (c : Conn) (i : Nat × Event), Inv max c → c.Allowed i ∧ c.Renewed i →
      ∃ c', c.step i = .ok c' ∧ Inv max c' :=
    fun c i h hi => step_inv h hmax hi.1 hi.2
  obtain ⟨c', hrun, hinv'⟩ := run_invariant hnext hinv (hallowed.and hrenewed)
  exact ⟨c', hrun, hinv'.current.two_le⟩

instance decidableAvoids (c : Conn) (ack : CcAck) : Decidable (c.Avoids ack) :=
  inferInstanceAs (Decidable (_ ∧ _))

instance decidableTimed (c : Conn) : (i : Nat × Event) → Decidable (c.Timed i)
  | (_, .ackRecv _) => inferInstanceAs (Decidable (_ → _))
  | (_, .measure ..) | (_, .congestionEvent ..) | (_, .spuriousCongestion) | (_, .persistentCongestion) | (_, .reset _) =>
    .isTrue trivial

instance decidableRenewed (c : Conn) : (i : Nat × Event) → Decidable (c.Renewed i)
  | (_, .ackRecv _) => inferInstanceAs (Decidable (_ → _))
  | (_, .measure ..) | (_, .congestionEvent ..) | (_, .spuriousCongestion) | (_, .persistentCongestion) | (_, .reset _) =>
    .isTrue trivial

instance decidableAllowed (c : Conn) : (i : Nat × Event) → Decidable (c.Allowed i)
  | (_, .ackRecv _) | (_, .measure ..) | (_, .congestionEvent ..) | (_, .spuriousCongestion)
  | (_, .persistentCongestion) | (_, .reset _) => inferInstanceAs (Decidable (_ ∧ _ ∧ _ ∧ _ ∧ _))

/-- A packet sent 50 milliseconds ago is acknowledged. -/
def acked (ts : Nat) : Nat × Event :=
  (ts, .ackRecv ⟨1200, 0, 0, ts - 50000000, 50000000⟩)

/-- A congestion event, and acknowledgements after it, for one of which the application is the limit. -/
def limitedRun : List (Nat × Event) :=
  [(1000000000000, .congestionEvent 999950000000 ⟨0, 1200, 0, uint64Max, uint64Max⟩), acked 1000060000000,
    (1000070000000, .measure 1200 1000000000000 50000000 { Rst.init with rs := { Rs.init with isAppLimited := true } }),
    acked 1000070000000, (1000090000000, .measure 1200 1000000000000 50000000 Rst.init), acked 1000090000000,
    (1000100000000, .spuriousCongestion), acked 1000110000000]

theorem epoch_timed_iff_limited :
    ∃ c, init 1200 333000000 999000000000 = .ok c ∧
      ((∃ c', run step c limitedRun = .ok c' ∧ 2 * 1200 ≤ c'.stat.cwnd) ∧
          Guarded step (fun c i => 2 * 1200 ≤ c.stat.cwnd ∧ c.Timed i) c limitedRun ↔
        Guarded step Renewed c limitedRun) ∧ Guarded step Renewed c limitedRun := by
  obtain ⟨c, hinit, hiff⟩ := epoch_timed_iff (⟨by decide, by decide⟩ : Sized 1200) (show 333000000 < 2 ^ 45 by decide)
    (show 999000000000 < uint64Max by decide)
  have hguards : ∀ c ∈ (init 1200 333000000 999000000000).toOption,
      Guarded step Allowed c limitedRun ∧ Guarded step Renewed c limitedRun := by
    decide +kernel
  obtain ⟨hallowed, hrenewed⟩ := hguards c (by rw [hinit]; rfl)
  exact ⟨c, hinit, hiff _ hallowed, hrenewed⟩

/-- All packets in flight are lost, and slow start comes back to the threshold. -/
def lostRun : List (Nat × Event) :=
  [(1000000000000, .congestionEvent 999950000000 ⟨0, 12000, 0, uint64Max, uint64Max⟩),
    (1000000000000, .persistentCongestion), acked 1000100000000, acked 1000100000000, acked 1000100000000,
    acked 1000100000000, acked 1000100000000, acked 1000150000000]

/-- The last acknowledgement takes the congestion-avoidance branch without an epoch, and the window grows as if the epoch
had begun when the clock did. -/
theorem epoch_untimed :
    ∃ c c', init 1200 333000000 999000000000 = .ok c ∧ Guarded step Allowed c lostRun ∧
      ¬ Guarded step Timed c lostRun ∧ run step c lostRun = .ok c' ∧ c'.cc.current.epochStart = uint64Max ∧
      c'.stat.ssthresh = 8400 ∧ c'.stat.cwnd = 9000 := by
  have hrun : ∃ c ∈ (init 1200 333000000 999000000000).toOption, Guarded step Allowed c lostRun ∧
      ¬ Guarded step Timed c lostRun ∧ ∃ c' ∈ (run step c lostRun).toOption, c'.cc.current.epochStart = uint64Max ∧
        c'.stat.ssthresh = 8400 ∧ c'.stat.cwnd = 9000 := by
    decide +kernel
  obtain ⟨c, hinit, hallowed, htimed, c', hlost, hepoch⟩ := hrun
  exact ⟨c, c', ok_of_toOption hinit, hallowed, htimed, ok_of_toOption hlost, hepoch⟩

end Zngtcp2.Cubic.Conn
