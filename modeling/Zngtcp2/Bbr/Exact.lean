import Zngtcp2.Bbr.Runs

namespace Zngtcp2.Bbr

open Lib.Run
open RateSample (Rst seconds)

/-- The delivery rate of 100 Gbit/s, in bytes per second. -/
def maxRate : Nat :=
  12500000000

/-- The fields that the rates and the products depend on. -/
structure Rates where
  exact : Bool
  maxBwFilter : WindowFilter
  maxBw : Nat
  bw : Nat
  fullBw : Nat
  deliveryRateSec : Nat
  minRtt : WithTop Nat
  probeRttMinDelay : WithTop Nat
  cwndGainH : Nat
  extraAckedIntervalStart : Nat
  lost : Nat
  txInFlight : Nat

/-- Every rate is below the maximum, and every RTT below a second. -/
structure Rates.Inv (now : Nat) (r : Rates) : Prop where
  filter : r.maxBwFilter.est0.sample = uint64Max ∨ r.maxBwFilter.All (·.sample < maxRate)
  maxBw : r.maxBw < maxRate
  bw : r.bw < maxRate
  fullBw : r.fullBw < maxRate
  deliveryRateSec : r.deliveryRateSec < maxRate
  minRtt : ∀ rtt : Nat, r.minRtt = rtt → rtt < seconds
  probeRttMinDelay : ∀ rtt : Nat, r.probeRttMinDelay = rtt → rtt < seconds
  cwndGainH : r.cwndGainH ≤ 225
  start : r.extraAckedIntervalStart ≤ now
  lost : r.lost = 0
  txInFlight : r.txInFlight = 0

/-- The bounds are kept, all products were exact, and the operands of the product with an interval stay. -/
structure Rates.Keeps (now : Nat) (r r' : Rates) : Prop where
  inv : r'.Inv now
  exact : r'.exact = r.exact
  bw : r'.bw = r.bw
  start : r'.extraAckedIntervalStart = r.extraAckedIntervalStart

namespace Rates

variable {now : Nat} {r r' r'' : Rates}

theorem Keeps.trans (h : Keeps now r r') (h' : Keeps now r' r'') : Keeps now r r'' :=
  ⟨h'.inv, h'.exact.trans h.exact, h'.bw.trans h.bw, h'.start.trans h.start⟩

theorem Inv.keeps (h : Inv now r) (heq : r' = r) : Keeps now r r' := by
  subst heq
  exact ⟨h, rfl, rfl, rfl⟩

theorem Inv.withFullBw (h : Inv now r) {fullBw : Nat} (hlt : fullBw < maxRate) : Keeps now r { r with fullBw := fullBw } :=
  ⟨{ h with fullBw := hlt }, rfl, rfl, rfl⟩

theorem Inv.withGain (h : Inv now r) {gain : Nat} (hle : gain ≤ 225) : Keeps now r { r with cwndGainH := gain } :=
  ⟨{ h with cwndGainH := hle }, rfl, rfl, rfl⟩

end Rates

def Cc.rates (c : Cc) : Rates where
  exact := c.exact
  maxBwFilter := c.bbr.maxBwFilter
  maxBw := c.bbr.maxBw
  bw := c.bbr.bw
  fullBw := c.bbr.fullBw
  deliveryRateSec := c.stat.deliveryRateSec
  minRtt := c.bbr.minRtt
  probeRttMinDelay := c.bbr.probeRttMinDelay
  cwndGainH := c.bbr.cwndGainH
  extraAckedIntervalStart := c.bbr.extraAckedIntervalStart
  lost := c.rst.rs.lost
  txInFlight := c.rst.rs.txInFlight

/-- The product is exact if it fits a word, and only then. -/
theorem mul_eq_iff {a b : Nat} : mul a b = a * b ↔ a * b < 2 ^ 64 := by
  rw [mul]
  exact Nat.mod_eq_iff_lt (by decide)

namespace Cc

variable {c c' : Cc} {ack : CcAck} {ts : Nat}

theorem rates_ite {p : Prop} [Decidable p] {a b : Cc} (ha : a.rates = c.rates) (hb : b.rates = c.rates) :
    (if p then a else b).rates = c.rates := by
  split
  · exact ha
  · exact hb

theorem rates_multiplies {a b : Nat} (h : a * b < 2 ^ 64) : (c.multiplies a b).rates = c.rates := by
  have hexact : (c.multiplies a b).exact = c.exact := by
    rw [multiplies, decide_eq_true h, Bool.and_true]
  simp only [rates, hexact]
  rfl

theorem bwProbeSamples_noteLoss : c.noteLoss.bbr.bwProbeSamples = c.bbr.bwProbeSamples := by
  rw [noteLoss]
  simp only
  split <;> rfl

theorem inflightAtLoss_any (pkt : CcPkt) (lost : Nat) : Ends (fun _ => True) (fun _ => True) (inflightAtLoss pkt lost) := by
  cases inflightAtLoss pkt lost <;> trivial

section Frame

@[simp] theorem rates_resetCongestionSignals : c.resetCongestionSignals.rates = c.rates := rfl

@[simp] theorem rates_resetShorttermModel : c.resetShorttermModel.rates = c.rates := rfl

@[simp] theorem rates_startRound : c.startRound.rates = c.rates := rfl

@[simp] theorem rates_quantizationBudget (inflight : Nat) : (c.quantizationBudget inflight).1.rates = c.rates := rfl

@[simp] theorem rates_pickProbeWait : c.pickProbeWait.rates = c.rates := rfl

@[simp] theorem rates_saveCwnd : c.saveCwnd.rates = c.rates := by
  rw [saveCwnd]
  split <;> rfl

@[simp] theorem rates_restoreCwnd : c.restoreCwnd.rates = c.rates := rfl

@[simp] theorem rates_handleRecovery : (c.handleRecovery ack).rates = c.rates := by
  rw [handleRecovery]
  split_ifs <;> rfl

@[simp] theorem rates_updateLatestDeliverySignals : c.updateLatestDeliverySignals.rates = c.rates := by
  rw [updateLatestDeliverySignals]
  simp only
  split <;> rfl

@[simp] theorem rates_advanceLatestDeliverySignals : c.advanceLatestDeliverySignals.rates = c.rates := by
  rw [advanceLatestDeliverySignals]
  split <;> rfl

@[simp] theorem rates_updateRound : (c.updateRound ack).rates = c.rates := by
  rw [updateRound]
  split <;> rfl

@[simp] theorem rates_advanceAckPhase : c.advanceAckPhase.rates = c.rates := by
  rw [advanceAckPhase]
  simp only
  split_ifs <;> rfl

@[simp] theorem rates_raiseInflightLongterm : c.raiseInflightLongterm.rates = c.rates := by
  rw [raiseInflightLongterm]
  split <;> rfl

@[simp] theorem rates_markConnectionAppLimited : c.markConnectionAppLimited.rates = c.rates := rfl

@[simp] theorem rates_boundCwndForModel : c.boundCwndForModel.rates = c.rates := rfl

@[simp] theorem rates_noteLoss : c.noteLoss.rates = c.rates := by
  rw [noteLoss]
  simp only
  split <;> rfl

@[simp] theorem rates_congestionEvent (sentTs : Nat) : (c.congestionEvent ts sentTs).rates = c.rates := by
  rw [congestionEvent]
  split
  · rfl
  · exact rates_saveCwnd

@[simp] theorem rates_onPersistentCongestion : c.onPersistentCongestion.rates = c.rates :=
  rates_saveCwnd

end Frame

/-- The function keeps the bounds and makes exact products only. -/
def Exact (now : Nat) (c : Cc) (x : Except BbrStop Cc) : Prop :=
  Ends (fun _ => True) (fun c' => c.rates.Keeps now c'.rates) x

theorem Exact.bind {x : Except BbrStop Cc} {f : Cc → Except BbrStop Cc} (hx : Exact ts c x)
    (hf : ∀ c₁, c.rates.Keeps ts c₁.rates → Exact ts c₁ (f c₁)) : Exact ts c (x >>= f) := by
  apply Ends.bind hx
  intro c₁ h₁
  apply (hf c₁ h₁).mono
  exact fun c₂ h₂ => h₁.trans h₂

theorem Exact.of_rates {x : Except BbrStop Cc} (hrates : c'.rates = c.rates) (hx : Exact ts c' x) : Exact ts c x := by
  rw [Exact, hrates] at hx
  exact hx

theorem div_bind {α : Type} {a b : Nat} {f : Nat → Except BbrStop α} {P : α → Prop}
    (hf : Ends (fun _ => True) P (f (a / b))) : Ends (fun _ => True) P (div a b >>= f) := by
  rw [div]
  split
  · trivial
  · exact hf

section Inv

variable (h : c.rates.Inv ts)

include h

theorem ok_exact : Exact ts c (.ok c) :=
  h.keeps rfl

/-- The rate times the RTT is below 12.5 GB, in nanoseconds less than a word holds. -/
theorem rates_bdpMultiple {gainH : Nat} (hgain : gainH ≤ 225) : (c.bdpMultiple gainH).1.rates = c.rates := by
  rw [bdpMultiple]
  split
  · rfl
  · rename_i minRtt hminRtt
    have hbdp : c.bbr.bw * minRtt ≤ maxRate * seconds := Nat.mul_le_mul h.bw.le (h.minRtt minRtt hminRtt).le
    have hfits : c.bbr.bw * minRtt < 2 ^ 64 := Nat.lt_of_le_of_lt hbdp (by decide)
    have hle : max (mul c.bbr.bw minRtt / seconds) 1 ≤ maxRate := by
      rw [mul_eq_iff.mpr hfits]
      exact Nat.max_le.mpr ⟨Nat.div_le_of_le_mul (Nat.mul_comm seconds maxRate ▸ hbdp), by decide⟩
    have hgains : max (mul c.bbr.bw minRtt / seconds) 1 * gainH < 2 ^ 64 :=
      Nat.lt_of_le_of_lt (Nat.mul_le_mul hle hgain) (by decide)
    exact (rates_multiplies (c := { c.multiplies c.bbr.bw minRtt with bbr.bdp := _ }) hgains).trans (rates_multiplies hfits)

theorem rates_inflight : (c.inflight 100).1.rates = c.rates :=
  rates_bdpMultiple h (by decide)

theorem rates_probeRttCwnd : c.probeRttCwnd.1.rates = c.rates :=
  rates_bdpMultiple h (by decide)

theorem rates_updateMaxInflight : c.updateMaxInflight.rates = c.rates :=
  rates_bdpMultiple h h.cwndGainH

theorem rates_boundCwndForProbeRtt : c.boundCwndForProbeRtt.rates = c.rates := by
  rw [boundCwndForProbeRtt]
  split
  · exact rates_probeRttCwnd h
  · rfl

theorem rates_isInflightTooHigh : (c.isInflightTooHigh c.rst.rs.lost c.rst.rs.txInFlight).1.rates = c.rates := by
  have hlost : c.rst.rs.lost * 100 < 2 ^ 64 := by rw [show c.rst.rs.lost = 0 from h.lost]; decide
  have htx : c.rst.rs.txInFlight * 2 < 2 ^ 64 := by rw [show c.rst.rs.txInFlight = 0 from h.txInFlight]; decide
  exact (rates_multiplies htx).trans (rates_multiplies hlost)

theorem resetFullBw_keeps : c.rates.Keeps ts c.resetFullBw.rates :=
  h.withFullBw (by decide : 0 < maxRate)

theorem setPacingRateWithGain_exact (gain : Nat) : Exact ts c (c.setPacingRateWithGain gain) := by
  rw [setPacingRateWithGain]
  split
  · exact ok_exact h
  · apply div_bind
    apply div_bind
    have hrates : (((c.multiplies seconds 1024).multiplies (mul seconds 1024) 100).multiplies
        (mul (mul seconds 1024) 100) 100).rates = c.rates :=
      (rates_multiplies (by decide)).trans ((rates_multiplies (by decide)).trans (rates_multiplies (by decide)))
    simp only
    split
    · exact h.keeps hrates
    · exact h.keeps hrates

theorem setSendQuantum_exact : Exact ts c c.setSendQuantum :=
  div_bind (h.keeps rfl)

theorem startProbeBwDown_rates : c.rates.Keeps ts (c.startProbeBwDown ts).rates :=
  h.withGain (by decide : 200 ≤ 225)

theorem startProbeBwCruise_rates : c.rates.Keeps ts c.startProbeBwCruise.rates :=
  h.withGain (by decide : 200 ≤ 225)

theorem startProbeBwRefill_rates : c.rates.Keeps ts c.startProbeBwRefill.rates :=
  h.withGain (by decide : 200 ≤ 225)

theorem enterStartup_rates : c.rates.Keeps ts c.enterStartup.rates :=
  h.withGain (by decide : 200 ≤ 225)

theorem enterDrain_rates : c.rates.Keeps ts c.enterDrain.rates :=
  h.withGain (by decide : 200 ≤ 225)

theorem startProbeRtt_rates : c.rates.Keeps ts c.startProbeRtt.rates := by
  have hkeeps : c.rates.Keeps ts c.enterProbeRtt.rates := h.withGain (by decide : 50 ≤ 225)
  exact hkeeps.trans (hkeeps.inv.keeps rates_saveCwnd)

theorem raiseInflightLongtermSlope_exact : Exact ts c c.raiseInflightLongtermSlope :=
  div_bind (h.keeps rfl)

theorem startProbeBwUp_exact : Exact ts c c.startProbeBwUp := by
  have hup : c.rates.Keeps ts c.enterProbeBwUp.rates :=
    (h.withFullBw h.deliveryRateSec).trans ((h.withFullBw h.deliveryRateSec).inv.withGain (by decide : 225 ≤ 225))
  apply (raiseInflightLongtermSlope_exact hup.inv).mono
  exact fun c' hkeeps => hup.trans hkeeps

theorem updateMaxBw_rates : c.rates.Keeps ts (c.updateMaxBw ack).rates := by
  have hround : (c.updateRound ack).rates = c.rates := rates_updateRound
  rw [updateMaxBw]
  simp only
  generalize c.updateRound ack = c₁ at hround ⊢
  split
  · have hi : c₁.rates.Inv ts := hround ▸ h
    have hall : (c₁.bbr.maxBwFilter.update ⟨c₁.stat.deliveryRateSec, c₁.bbr.cycleCount, 0⟩).All (·.sample < maxRate) :=
      .update hi.filter hi.deliveryRateSec
    rw [← hround]
    exact ⟨{ hi with filter := Or.inr hall, maxBw := hall.est0 }, rfl, rfl, rfl⟩
  · exact h.keeps hround

theorem adaptLowerBoundsFromCongestion_exact : Exact ts c c.adaptLowerBoundsFromCongestion := by
  rw [adaptLowerBoundsFromCongestion]
  split_ifs
  · exact ok_exact h
  · rw [lossLowerBounds]
    split
    · exact h.keeps rfl
    · trivial
  · exact ok_exact h

theorem updateCongestionSignals_exact : Exact ts c (c.updateCongestionSignals ack) := by
  have hmax : c.rates.Keeps ts (c.updateMaxBw ack).rates := updateMaxBw_rates h
  rw [updateCongestionSignals]
  simp only
  generalize c.updateMaxBw ack = c₁ at hmax ⊢
  have hcount : c.rates.Keeps ts (if ack.bytesLost ≠ 0 then
      { c₁ with
        bbr.bytesLostInRound := c₁.bbr.bytesLostInRound + ack.bytesLost
        bbr.lossEventsInRound := c₁.bbr.lossEventsInRound + 1 }
      else c₁).rates := hmax.trans (hmax.inv.keeps (rates_ite rfl rfl))
  generalize ite (ack.bytesLost ≠ 0) _ c₁ = c₂ at hcount ⊢
  split
  · exact hcount
  · apply Ends.bind (adaptLowerBoundsFromCongestion_exact hcount.inv)
    exact fun c₃ h₃ => hcount.trans h₃

/-- The product that may wrap around is the one of the rate with the time since the interval began. -/
theorem updateAckAggregation_exact (ack : CcAck) (hts : ts < 2 ^ 64) :
    (c.updateAckAggregation ack ts).rates.Inv ts ∧ (c.updateAckAggregation ack ts).exact =
      (c.exact && decide (c.bbr.bw * (ts - c.bbr.extraAckedIntervalStart) < 2 ^ 64)) := by
  have hsub : sub64 ts c.bbr.extraAckedIntervalStart = ts - c.bbr.extraAckedIntervalStart := sub64_of_le h.start hts
  rw [← hsub, updateAckAggregation]
  simp only
  split
  · exact ⟨{ h with start := Nat.le_refl ts }, rfl⟩
  · exact ⟨{ h with }, rfl⟩

theorem checkFullBwReached_rates : c.rates.Keeps ts c.checkFullBwReached.rates := by
  have hrate : c.stat.deliveryRateSec * 100 < 2 ^ 64 :=
    Nat.lt_of_lt_of_le (Nat.mul_lt_mul_of_pos_right h.deliveryRateSec (by decide)) (by decide)
  have hfull : c.bbr.fullBw * 125 < 2 ^ 64 :=
    Nat.lt_of_lt_of_le (Nat.mul_lt_mul_of_pos_right h.fullBw (by decide)) (by decide)
  have hrates : ((c.multiplies c.stat.deliveryRateSec 100).multiplies c.bbr.fullBw 125).rates = c.rates :=
    (rates_multiplies hfull).trans (rates_multiplies hrate)
  rw [checkFullBwReached]
  split
  · exact h.keeps rfl
  · simp only
    have hkeeps := h.keeps hrates
    split_ifs
    · exact hkeeps.trans (hkeeps.inv.withFullBw h.deliveryRateSec)
    · exact hkeeps
    · exact hkeeps

theorem rates_checkStartupHighLoss : c.checkStartupHighLoss.rates = c.rates := by
  have hrates := rates_isInflightTooHigh h
  rw [checkStartupHighLoss]
  split
  · rfl
  · generalize c.isInflightTooHigh c.rst.rs.lost c.rst.rs.txInFlight = p at hrates ⊢
    have hi : p.1.rates.Inv ts := hrates ▸ h
    show (if _ then _ else _ : Cc).rates = c.rates
    split
    · exact hrates
    · exact (rates_bdpMultiple (c := { p.1 with bbr.fullBwReached := true }) hi hi.cwndGainH).trans hrates

theorem checkStartupDone_rates : c.rates.Keeps ts c.checkStartupDone.rates := by
  have hkeeps := h.keeps (rates_checkStartupHighLoss h)
  rw [checkStartupDone]
  split
  · exact hkeeps.trans (enterDrain_rates hkeeps.inv)
  · exact hkeeps

theorem checkDrainDone_rates : c.rates.Keeps ts (c.checkDrainDone ts).rates := by
  have hkeeps := h.keeps (rates_inflight h)
  rw [checkDrainDone]
  split
  · generalize c.inflight 100 = p at hkeeps ⊢
    show c.rates.Keeps ts (if _ then _ else _ : Cc).rates
    split
    · exact hkeeps.trans (startProbeBwDown_rates hkeeps.inv)
    · exact hkeeps
  · exact h.keeps rfl

theorem growInflightLongterm_exact : Exact ts c c.growInflightLongterm := by
  rw [growInflightLongterm]
  split
  · exact ok_exact h
  · split
    · exact div_bind (h.keeps rfl)
    · exact ok_exact h

theorem probeInflightLongtermUpward_exact : Exact ts c (c.probeInflightLongtermUpward ack) := by
  rw [probeInflightLongtermUpward]
  split
  · exact ok_exact h
  · refine (Exact.of_rates rfl (growInflightLongterm_exact ?_)).bind ?_
    · exact h
    intro c₁ h₁
    split
    · exact raiseInflightLongtermSlope_exact h₁.inv
    · exact ok_exact h₁.inv

theorem adaptLongtermModel_exact : Exact ts c (c.adaptLongtermModel ack) := by
  have hrates := rates_isInflightTooHigh (c := c.advanceAckPhase) (rates_advanceAckPhase ▸ h)
  rw [rates_advanceAckPhase] at hrates
  rw [adaptLongtermModel]
  generalize c.advanceAckPhase.isInflightTooHigh c.advanceAckPhase.rst.rs.lost c.advanceAckPhase.rst.rs.txInFlight = p
    at hrates ⊢
  apply Exact.of_rates hrates
  rw [← hrates] at h
  show Exact ts p.1 (if _ then _ else _)
  split
  · exact ok_exact h
  · apply Exact.of_rates rates_raiseInflightLongterm
    rw [← rates_raiseInflightLongterm] at h
    show Exact ts _ (if _ then _ else _)
    split
    · exact probeInflightLongtermUpward_exact h
    · exact ok_exact h

theorem isTimeToProbeBw_exact : Ends (fun _ => True) (fun p => c.rates.Keeps ts p.1.rates) (c.isTimeToProbeBw ts) := by
  rw [isTimeToProbeBw, hasElapsedInPhase]
  split
  · trivial
  · show Ends _ _ (if _ then _ else _)
    split
    · exact startProbeBwRefill_rates h
    · rw [isRenoCoexistenceProbeTime, bind_assoc]
      apply div_bind
      show Ends _ _ (if _ then _ else _)
      split
      · exact startProbeBwRefill_rates h
      · exact h.keeps rfl

theorem isTimeToGoDown_rates : c.rates.Keeps ts c.isTimeToGoDown.1.rates := by
  rw [isTimeToGoDown]
  split
  · exact (resetFullBw_keeps h).trans ((resetFullBw_keeps h).inv.withFullBw h.deliveryRateSec)
  · exact h.keeps rfl

theorem updateProbeBwCyclePhase_exact : Exact ts c (c.updateProbeBwCyclePhase ack ts) := by
  rw [updateProbeBwCyclePhase]
  split
  · exact ok_exact h
  · apply (adaptLongtermModel_exact h).bind
    intro c₁ h₁
    have hi := h₁.inv
    split
    case h_1 =>
      apply Ends.bind (isTimeToProbeBw_exact hi)
      rintro ⟨c₂, probes⟩ h₂
      show Ends _ _ (if _ then _ else _)
      split
      · exact h₂
      · have h₃ : c₂.rates.Keeps ts c₂.isTimeToCruise.1.rates := h₂.inv.keeps (rates_inflight h₂.inv)
        generalize c₂.isTimeToCruise = p at h₃ ⊢
        show Ends _ _ (if _ then _ else _)
        split
        · exact h₂.trans (h₃.trans (startProbeBwCruise_rates h₃.inv))
        · exact h₂.trans h₃
    case h_2 =>
      apply Ends.bind (isTimeToProbeBw_exact hi)
      exact fun p hp => hp
    case h_3 =>
      split
      · exact startProbeBwUp_exact (c := { c₁ with bbr.bwProbeSamples := true }) hi
      · exact ok_exact hi
    case h_4 =>
      have h₂ := isTimeToGoDown_rates hi
      generalize c₁.isTimeToGoDown = p at h₂ ⊢
      show Exact ts c₁ (if _ then _ else _)
      split
      · exact h₂.trans (startProbeBwDown_rates h₂.inv)
      · exact h₂
    case h_5 => exact ok_exact hi

theorem updateMinRtt_rates (hrtt : ∀ rtt : Nat, ack.rtt = rtt → rtt < seconds) :
    c.rates.Keeps ts (c.updateMinRtt ack ts).rates := by
  rw [updateMinRtt]
  simp only
  split_ifs
  · exact ⟨{ h with probeRttMinDelay := hrtt, minRtt := hrtt }, rfl, rfl, rfl⟩
  · exact ⟨{ h with probeRttMinDelay := hrtt }, rfl, rfl, rfl⟩
  · exact ⟨{ h with minRtt := h.probeRttMinDelay }, rfl, rfl, rfl⟩
  · exact ⟨{ h with }, rfl, rfl, rfl⟩

theorem exitProbeRtt_rates : c.rates.Keeps ts (c.exitProbeRtt ts).rates := by
  rw [exitProbeRtt]
  simp only
  split
  · exact (startProbeBwDown_rates h).trans (startProbeBwCruise_rates (startProbeBwDown_rates h).inv)
  · exact enterStartup_rates h

theorem checkProbeRttDone_rates : c.rates.Keeps ts (c.checkProbeRttDone ts).rates := by
  rw [checkProbeRttDone]
  split
  · exact exitProbeRtt_rates (c := { c with bbr.probeRttMinStamp := ts }.restoreCwnd) h
  · exact h.keeps rfl

theorem handleProbeRtt_rates : c.rates.Keeps ts (c.handleProbeRtt ts).rates := by
  rw [handleProbeRtt]
  split
  · have hkeeps : c.rates.Keeps ts c.markConnectionAppLimited.probeRttCwnd.1.rates := 
      h.keeps (rates_probeRttCwnd (c := c.markConnectionAppLimited) h)
    generalize c.markConnectionAppLimited.probeRttCwnd = p at hkeeps ⊢
    show c.rates.Keeps ts (if _ then _ else _ : Cc).rates
    split
    · exact hkeeps
    · exact hkeeps
  · simp only
    split_ifs
    · exact checkProbeRttDone_rates (c := { c.markConnectionAppLimited with bbr.probeRttRoundDone := true }) h
    · exact h.keeps rfl
    · exact checkProbeRttDone_rates (c := c.markConnectionAppLimited) h
    · exact h.keeps rfl

theorem checkProbeRtt_rates : c.rates.Keeps ts (c.checkProbeRtt ts).rates := by
  have hidle (c₁ : Cc) : (if c₁.rst.rs.delivered ≠ 0 then { c₁ with bbr.idleRestart := false } else c₁).rates = c₁.rates :=
    rates_ite rfl rfl
  have hstart := startProbeRtt_rates h
  rw [checkProbeRtt]
  simp only
  rw [hidle]
  split_ifs
  · exact hstart.trans (handleProbeRtt_rates hstart.inv)
  · exact hstart
  · exact handleProbeRtt_rates h
  · exact h.keeps rfl

theorem boundBwForModel_exact : c.boundBwForModel.rates.Inv ts ∧ c.boundBwForModel.exact = c.exact := by
  have hle : atMost c.bbr.maxBw c.bbr.bwShortterm ≤ c.bbr.maxBw := by
    cases c.bbr.bwShortterm with
    | top => exact Nat.le_refl _
    | coe bw => exact Nat.min_le_left _ _
  exact ⟨{ h with bw := Nat.lt_of_le_of_lt hle h.maxBw }, rfl⟩

theorem updateModelAndState_exact (hts : ts < 2 ^ 64) (hrtt : ∀ rtt : Nat, ack.rtt = rtt → rtt < seconds) :
    Ends (fun _ => True) (fun c' => c'.rates.Inv ts ∧
      c'.exact = (c.exact && decide (c.bbr.bw * (ts - c.bbr.extraAckedIntervalStart) < 2 ^ 64)))
      (c.updateModelAndState ack ts) := by
  have h₁ : Exact ts c (c.updateLatestDeliverySignals.updateCongestionSignals ack) := by
    apply Exact.of_rates rates_updateLatestDeliverySignals
    apply updateCongestionSignals_exact
    rwa [rates_updateLatestDeliverySignals]
  rw [updateModelAndState]
  apply Ends.bind h₁
  intro c₁ h₁
  obtain ⟨hi₂, hexact₂⟩ := updateAckAggregation_exact h₁.inv ack hts
  have h₃ := checkFullBwReached_rates hi₂
  have h₄ := checkStartupDone_rates h₃.inv
  have h₅ := checkDrainDone_rates h₄.inv
  apply Ends.bind (updateProbeBwCyclePhase_exact h₅.inv)
  intro c₆ h₆
  have h₇ := updateMinRtt_rates h₆.inv hrtt
  have h₈ := checkProbeRtt_rates h₇.inv
  have h₉ := h₈.trans (h₈.inv.keeps rates_advanceLatestDeliverySignals)
  obtain ⟨hi, hexact⟩ := boundBwForModel_exact h₉.inv
  refine ⟨hi, hexact.trans ?_⟩
  rw [show c.bbr.bw = c₁.bbr.bw from h₁.bw.symm, show c.exact = c₁.exact from h₁.exact.symm,
    show c.bbr.extraAckedIntervalStart = c₁.bbr.extraAckedIntervalStart from h₁.start.symm, ← hexact₂]
  exact (h₃.trans (h₄.trans (h₅.trans (h₆.trans (h₇.trans h₉))))).exact

theorem rates_setCwnd : (c.setCwnd ack).rates = c.rates := by
  have hrates := rates_updateMaxInflight h
  rw [setCwnd]
  simp only
  generalize c.updateMaxInflight = c₁ at hrates ⊢
  have hi : c₁.rates.Inv ts := hrates ▸ h
  have hset (cwnd : Nat) : { c₁ with stat.cwnd := cwnd }.boundCwndForProbeRtt.rates = c₁.rates :=
    rates_boundCwndForProbeRtt (c := { c₁ with stat.cwnd := cwnd }) hi
  rw [rates_boundCwndForModel]
  exact (hset _).trans hrates

theorem updateControlParameters_exact : Exact ts c (c.updateControlParameters ack) := by
  apply (setPacingRateWithGain_exact h c.bbr.pacingGainH).bind
  intro c₁ h₁
  apply (setSendQuantum_exact h₁.inv).bind
  intro c₂ h₂
  exact h₂.inv.keeps (rates_setCwnd h₂.inv)

/-- An ACK frame that delivers nothing updates nothing. -/
theorem onAckRecv_exact (hts : ts < 2 ^ 64) (hrtt : ∀ rtt : Nat, ack.rtt = rtt → rtt < seconds) :
    Ends (fun _ => True) (fun c' => c'.rates.Inv ts ∧ (c'.exact = true ↔ c.exact = true ∧
      (ack.bytesDelivered ≠ 0 → c.bbr.bw * (ts - c.bbr.extraAckedIntervalStart) < 2 ^ 64))) (c.onAckRecv ack ts) := by
  have h₁ : c.rates.Keeps ts (c.handleRecovery ack).rates := h.keeps rates_handleRecovery
  rw [onAckRecv]
  split
  · rename_i hnone
    rw [← show (c.handleRecovery ack).exact = c.exact from h₁.exact]
    exact ⟨h₁.inv, ⟨fun hexact => ⟨hexact, fun hne => absurd hnone hne⟩, And.left⟩⟩
  · rename_i hsome
    apply Ends.bind (updateModelAndState_exact h₁.inv hts hrtt)
    rintro c₂ ⟨hi₂, hexact₂⟩
    rw [show (c.handleRecovery ack).bbr.bw = c.bbr.bw from h₁.bw, show (c.handleRecovery ack).exact = c.exact from h₁.exact,
      show (c.handleRecovery ack).bbr.extraAckedIntervalStart = c.bbr.extraAckedIntervalStart from h₁.start] at hexact₂
    apply (updateControlParameters_exact hi₂).mono
    intro c₃ h₃
    rw [show c₃.exact = c₂.exact from h₃.exact, hexact₂, Bool.and_eq_true, decide_eq_true_eq]
    exact ⟨h₃.inv, and_congr_right fun _ => ⟨fun hfits _ => hfits, fun hfits => hfits hsome⟩⟩

theorem handleInflightTooHigh_rates (txInFlight : Nat) (isAppLimited : Bool) :
    c.rates.Keeps ts (c.handleInflightTooHigh ts txInFlight isAppLimited).rates := by
  rw [handleInflightTooHigh]
  simp only
  split_ifs
  · exact startProbeBwDown_rates h
  · exact h.keeps rfl
  · exact startProbeBwDown_rates h
  · exact h.keeps rfl

/-- The loss of a packet is weighed only while the samples come from a probe for bandwidth. -/
theorem onPktLost_exact (pkt : CcPkt) :
    Ends (fun _ => True) (fun c' => c'.rates.Inv ts ∧ (c'.exact = true ↔ c.exact = true ∧ (c.bbr.bwProbeSamples = true →
      (c.rst.lost - pkt.lost) * 100 < 2 ^ 64 ∧ pkt.txInFlight * 2 < 2 ^ 64))) (c.onPktLost ts pkt) := by
  have h₁ : c.rates.Keeps ts c.noteLoss.rates := h.keeps rates_noteLoss
  have h₂ : (c.noteLoss.isInflightTooHigh (c.rst.lost - pkt.lost) pkt.txInFlight).1.rates.Inv ts := { h₁.inv with }
  have hexact₂ : (c.noteLoss.isInflightTooHigh (c.rst.lost - pkt.lost) pkt.txInFlight).1.exact = true ↔ c.exact = true ∧
      (c.rst.lost - pkt.lost) * 100 < 2 ^ 64 ∧ pkt.txInFlight * 2 < 2 ^ 64 := by
    rw [← show c.noteLoss.exact = c.exact from h₁.exact]
    simp only [isInflightTooHigh, multiplies, Bool.and_eq_true, decide_eq_true_eq, and_assoc]
  rw [onPktLost]
  simp only [rst_noteLoss, bwProbeSamples_noteLoss]
  cases c.bbr.bwProbeSamples with
  | false =>
      rw [← show c.noteLoss.exact = c.exact from h₁.exact]
      exact ⟨h₁.inv, ⟨fun hexact => ⟨hexact, fun hprobe => Bool.noConfusion hprobe⟩, And.left⟩⟩
  | true =>
      simp only [Bool.not_true, Bool.false_eq_true, if_false, forall_const]
      split_ifs
      · trivial
      · apply Ends.bind (inflightAtLoss_any pkt _)
        intro txInFlight _
        have h₃ := handleInflightTooHigh_rates h₂ txInFlight pkt.isAppLimited
        exact ⟨h₃.inv, (Bool.eq_iff_iff.mp h₃.exact).trans hexact₂⟩
      · exact ⟨h₂, hexact₂⟩

theorem handleSpuriousLossDetection_exact : Exact ts c c.handleSpuriousLossDetection := by
  have hundo : c.rates.Keeps ts c.undoLimits.rates := h.withFullBw (by decide : 0 < maxRate)
  rw [handleSpuriousLossDetection]
  generalize c.undoLimits = c₁ at hundo ⊢
  show Exact ts c (if _ then _ else _)
  split
  · split
    case h_1 => exact hundo.trans (enterStartup_rates hundo.inv)
    case h_2 =>
      apply (startProbeBwUp_exact hundo.inv).mono
      exact fun c₂ h₂ => hundo.trans h₂
    case h_3 => exact hundo
  · exact hundo

theorem onSpuriousCongestion_exact : Exact ts c c.onSpuriousCongestion := by
  apply Exact.of_rates rates_restoreCwnd
  exact handleSpuriousLossDetection_exact h

theorem onPktSent_exact : Ends (fun _ => True) (fun c' => c'.rates.Inv ts ∧ c'.exact = c.exact) (c.onPktSent ts) := by
  rw [onPktSent]
  split
  · have hi : { c with bbr.idleRestart := true, bbr.extraAckedIntervalStart := ts }.rates.Inv ts :=
      { h with start := Nat.le_refl ts }
    simp only
    split_ifs
    · apply (setPacingRateWithGain_exact hi 100).mono
      exact fun c' h' => ⟨h'.inv, h'.exact⟩
    · exact ⟨(checkProbeRttDone_rates hi).inv, (checkProbeRttDone_rates hi).exact⟩
    · exact ⟨hi, rfl⟩
  · exact ⟨h, rfl⟩

end Inv

/-- There is no RTT sample when the controller starts anew. -/
theorem onInit_exact (initialTs : Nat) (hfirst : c.stat.firstRttSampleTs = ⊤) (hrate : c.stat.deliveryRateSec < maxRate)
    (hlost : c.rst.rs.lost = 0) (htx : c.rst.rs.txInFlight = 0) :
    Ends (fun _ => True) (fun c' => c'.rates.Inv initialTs ∧ c'.exact = c.exact) (c.onInit initialTs) := by
  have hzero : 0 < maxRate := by decide
  have hi : (c.startAnew initialTs).rates.Inv initialTs := by
    refine ⟨Or.inl rfl, hzero, hzero, hzero, hrate, fun rtt hrtt => ?_, nofun, Nat.le_add_right 200 25, Nat.le_refl _,
      hlost, htx⟩
    have htop : (c.startAnew initialTs).bbr.minRtt = ⊤ := if_pos hfirst
    exact absurd (htop.symm.trans hrtt) WithTop.top_ne_coe
  have hrtt : (if (c.startAnew initialTs).stat.firstRttSampleTs = ⊤ then milliseconds else (c.startAnew initialTs).stat.smoothedRtt) =
      milliseconds := if_pos hfirst
  rw [onInit, initPacingRate]
  apply div_bind
  have hrates : (((c.startAnew initialTs).multiplies milliseconds 1024).multiplies (mul milliseconds 1024) 100).rates =
      (c.startAnew initialTs).rates := (rates_multiplies (by decide)).trans (rates_multiplies (by decide))
  simp only [hrtt]
  exact ⟨(hi.keeps hrates).inv, (hi.keeps hrates).exact⟩

end Cc

end Zngtcp2.Bbr
