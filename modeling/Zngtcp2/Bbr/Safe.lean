import Zngtcp2.Lib.Run
import Zngtcp2.Bbr.Model

namespace Zngtcp2.Bbr

open Lib.Run
open RateSample (seconds)

/-- The fields that the state machine lives on. -/
structure Core where
  state : BbrState
  undoState : BbrState
  cycleStamp : WithTop Nat
  probeUpCnt : WithTop Nat
  bwProbeUpRounds : Nat
  pacingGainH : Nat
  initialCwnd : Nat
  priorCwnd : Nat
  cwnd : Nat
  maxTxUdpPayloadSize : Nat
  pacingIntervalM : Nat
  downs : List Nat
  entryCwnd : Nat
  exits : List (Nat × Nat)
  lost : Nat

def BbrState.probesBw : BbrState → Bool
  | .probeBwDown | .probeBwCruise | .probeBwRefill | .probeBwUp => true
  | _ => false

/-- The invariant of the state machine, `now` at the latest. -/
structure Core.Inv (now : Nat) (k : Core) : Prop where
  stamped : k.state.probesBw = true ∨ k.undoState.probesBw = true → ∃ t ∈ k.downs, k.cycleStamp = (t : WithTop Nat)
  downs : ∀ t ∈ k.downs, t ≤ now
  probeUpCnt : k.probeUpCnt ≠ 0
  rounds : k.bwProbeUpRounds ≤ 30
  gain : 0 < k.pacingGainH
  initialCwnd : 0 < k.initialCwnd
  size : 1200 ≤ k.maxTxUdpPayloadSize
  size_le : k.maxTxUdpPayloadSize ≤ 65527
  cwnd : k.maxTxUdpPayloadSize * 4 ≤ k.cwnd
  pacing : 0 < k.pacingIntervalM
  entry : k.state = .probeRtt → k.entryCwnd ≤ k.priorCwnd

/-- The invariant is kept, and ProbeRTT neither entered nor left. -/
structure Core.Keeps (now : Nat) (k k' : Core) : Prop where
  inv : k'.Inv now
  probeRtt : k'.state = .probeRtt ↔ k.state = .probeRtt
  entryCwnd : k'.entryCwnd = k.entryCwnd
  exits : k'.exits = k.exits
  lost : k'.lost = k.lost

/-- The invariant is kept, and ProbeRTT left only with a window that is at least the one on entry. -/
structure Core.Moves (now : Nat) (k k' : Core) : Prop where
  inv : k'.Inv now
  lost : k'.lost = k.lost
  stays : k.state = .probeRtt → k'.state = .probeRtt → k'.entryCwnd = k.entryCwnd ∧ k'.exits = k.exits
  leaves : k.state = .probeRtt → k'.state ≠ .probeRtt →
    ∃ cwnd, k'.exits = (k.entryCwnd, cwnd) :: k.exits ∧ k.entryCwnd ≤ cwnd

namespace Core

variable {now : Nat} {k k' k'' : Core}

theorem Keeps.trans (h : Keeps now k k') (h' : Keeps now k' k'') : Keeps now k k'' :=
  ⟨h'.inv, h'.probeRtt.trans h.probeRtt, h'.entryCwnd.trans h.entryCwnd, h'.exits.trans h.exits,
    h'.lost.trans h.lost⟩

theorem Keeps.moves (h : Keeps now k k') : Moves now k k' :=
  ⟨h.inv, h.lost, fun _ _ => ⟨h.entryCwnd, h.exits⟩, fun hs hne => absurd (h.probeRtt.mpr hs) hne⟩

theorem Keeps.trans_moves (h : Keeps now k k') (h' : Moves now k' k'') : Moves now k k'' := by
  refine ⟨h'.inv, h'.lost.trans h.lost, fun hs hs'' => ?_, fun hs hne => ?_⟩
  · obtain ⟨hentry, hexits⟩ := h'.stays (h.probeRtt.mpr hs) hs''
    exact ⟨hentry.trans h.entryCwnd, hexits.trans h.exits⟩
  · obtain ⟨cwnd, hexits, hle⟩ := h'.leaves (h.probeRtt.mpr hs) hne
    rw [h.entryCwnd] at hle hexits
    rw [h.exits] at hexits
    exact ⟨cwnd, hexits, hle⟩

theorem Moves.trans_keeps (h : Moves now k k') (h' : Keeps now k' k'') : Moves now k k'' := by
  refine ⟨h'.inv, h'.lost.trans h.lost, fun hs hs'' => ?_, fun hs hne => ?_⟩
  · obtain ⟨hentry, hexits⟩ := h.stays hs (h'.probeRtt.mp hs'')
    exact ⟨h'.entryCwnd.trans hentry, h'.exits.trans hexits⟩
  · obtain ⟨cwnd, hexits, hle⟩ := h.leaves hs (fun hs' => hne (h'.probeRtt.mpr hs'))
    exact ⟨cwnd, h'.exits.trans hexits, hle⟩

/-- Outside ProbeRTT only the invariant has to be kept. -/
theorem Inv.moves (h : Inv now k') (hrtt : k.state ≠ .probeRtt) (hlost : k'.lost = k.lost) : Moves now k k' :=
  ⟨h, hlost, fun hs => absurd hs hrtt, fun hs => absurd hs hrtt⟩

theorem Inv.keeps (h : Inv now k) (heq : k' = k) : Keeps now k k' := by
  subst heq
  exact ⟨h, Iff.rfl, rfl, rfl, rfl⟩

theorem Inv.withPacingIntervalM (h : Inv now k) {interval : Nat} (hpos : 0 < interval) :
    Keeps now k { k with pacingIntervalM := interval } :=
  ⟨{ h with pacing := hpos }, Iff.rfl, rfl, rfl, rfl⟩

theorem Inv.withCwnd (h : Inv now k) {cwnd : Nat} (hle : k.maxTxUdpPayloadSize * 4 ≤ cwnd) :
    Keeps now k { k with cwnd := cwnd } :=
  ⟨{ h with cwnd := hle }, Iff.rfl, rfl, rfl, rfl⟩

theorem Inv.withPriorCwnd (h : Inv now k) {priorCwnd : Nat} (hle : k.state = .probeRtt → k.priorCwnd ≤ priorCwnd) :
    Keeps now k { k with priorCwnd := priorCwnd } :=
  ⟨{ h with entry := fun hs => (h.entry hs).trans (hle hs) }, Iff.rfl, rfl, rfl, rfl⟩

theorem Inv.withUndoState (h : Inv now k) : Inv now { k with undoState := k.state } :=
  { h with stamped := fun hs => h.stamped (hs.elim Or.inl Or.inl) }

theorem Inv.withRounds (h : Inv now k) {rounds : Nat} (hle : rounds ≤ 30) : Keeps now k { k with bwProbeUpRounds := rounds } :=
  ⟨{ h with rounds := hle }, Iff.rfl, rfl, rfl, rfl⟩

/-- A state outside ProbeBW and ProbeRTT is entered. -/
theorem Inv.enters (h : Inv now k) (state : BbrState) (gain : Nat) (hbw : state.probesBw = false) (hrtt : state ≠ .probeRtt)
    (hgain : 0 < gain) : Inv now { k with state := state, pacingGainH := gain } := by
  refine { h with stamped := fun hs => h.stamped (Or.inr (hs.resolve_left ?_)), gain := hgain, entry := fun hs => absurd hs hrtt }
  simp only [hbw, Bool.false_eq_true, not_false_eq_true]

/-- The state moves on within ProbeBW, or to ProbeBW_UP by an undo. -/
theorem Inv.cycles (h : Inv now k) (hs : k.state.probesBw = true ∨ k.undoState.probesBw = true) (state : BbrState) (gain : Nat)
    (hrtt : state ≠ .probeRtt) (hgain : 0 < gain) : Inv now { k with state := state, pacingGainH := gain } :=
  { h with stamped := fun _ => h.stamped hs, gain := hgain, entry := fun hs => absurd hs hrtt }

theorem Inv.down (h : Inv now k) : Inv now { k with
    state := .probeBwDown, pacingGainH := 90, probeUpCnt := ⊤, cycleStamp := (now : WithTop Nat), downs := now :: k.downs } :=
  { h with
    stamped := fun _ => ⟨now, List.mem_cons_self, rfl⟩
    downs := List.forall_mem_cons.mpr ⟨Nat.le_refl now, h.downs⟩
    probeUpCnt := WithTop.top_ne_zero
    gain := Nat.succ_pos _
    entry := fun hs => by cases hs }

/-- ProbeRTT is entered with the window noted. -/
theorem Inv.probesRtt (h : Inv now k) : Inv now { k with
    state := .probeRtt, pacingGainH := 100, entryCwnd := k.cwnd, priorCwnd := max k.priorCwnd k.cwnd } :=
  { h with
    stamped := fun hs => h.stamped (Or.inr (hs.resolve_left Bool.false_ne_true))
    gain := Nat.succ_pos _
    entry := fun _ => Nat.le_max_right _ _ }

theorem Inv.withExits (h : Inv now k) (exits : List (Nat × Nat)) : Inv now { k with exits := exits } :=
  { h with }

/-- One state is left for another one, none of them ProbeRTT. -/
theorem Inv.keepsOut (h : Inv now k') (hrtt : k.state ≠ .probeRtt) (hrtt' : k'.state ≠ .probeRtt)
    (hentry : k'.entryCwnd = k.entryCwnd) (hexits : k'.exits = k.exits) (hlost : k'.lost = k.lost) : Keeps now k k' :=
  ⟨h, ⟨fun hs => absurd hs hrtt', fun hs => absurd hs hrtt⟩, hentry, hexits, hlost⟩

theorem Inv.later (h : Inv now k) {ts : Nat} (hle : now ≤ ts) : Inv ts k :=
  { h with downs := fun t ht => (h.downs t ht).trans hle }

end Core

def Cc.core (c : Cc) : Core where
  state := c.bbr.state
  undoState := c.bbr.undoState
  cycleStamp := c.bbr.cycleStamp
  probeUpCnt := c.bbr.probeUpCnt
  bwProbeUpRounds := c.bbr.bwProbeUpRounds
  pacingGainH := c.bbr.pacingGainH
  initialCwnd := c.bbr.initialCwnd
  priorCwnd := c.bbr.priorCwnd
  cwnd := c.stat.cwnd
  maxTxUdpPayloadSize := c.stat.maxTxUdpPayloadSize
  pacingIntervalM := c.stat.pacingIntervalM
  downs := c.downs
  entryCwnd := c.entryCwnd
  exits := c.exits
  lost := c.rst.lost

namespace Cc

variable {c c' : Cc} {ack : CcAck} {ts : Nat}

section Frame

theorem core_ite {p : Prop} [Decidable p] {a b : Cc} (ha : a.core = c.core) (hb : b.core = c.core) :
    (if p then a else b).core = c.core := by
  split
  · exact ha
  · exact hb

@[simp] theorem core_multiplies (a b : Nat) : (c.multiplies a b).core = c.core := rfl

@[simp] theorem core_resetCongestionSignals : c.resetCongestionSignals.core = c.core := rfl

@[simp] theorem core_resetShorttermModel : c.resetShorttermModel.core = c.core := rfl

@[simp] theorem core_resetFullBw : c.resetFullBw.core = c.core := rfl

@[simp] theorem core_startRound : c.startRound.core = c.core := rfl

@[simp] theorem core_bdpMultiple (gainH : Nat) : (c.bdpMultiple gainH).1.core = c.core := by
  rw [bdpMultiple]
  split <;> rfl

@[simp] theorem core_quantizationBudget (inflight : Nat) : (c.quantizationBudget inflight).1.core = c.core := rfl

@[simp] theorem core_inflight (gainH : Nat) : (c.inflight gainH).1.core = c.core :=
  core_bdpMultiple gainH

@[simp] theorem core_isInflightTooHigh (lost txInFlight : Nat) : (c.isInflightTooHigh lost txInFlight).1.core = c.core := rfl

@[simp] theorem core_pickProbeWait : c.pickProbeWait.core = c.core := rfl

@[simp] theorem core_updateLatestDeliverySignals : c.updateLatestDeliverySignals.core = c.core := by
  rw [updateLatestDeliverySignals]
  simp only
  split <;> rfl

@[simp] theorem core_advanceLatestDeliverySignals : c.advanceLatestDeliverySignals.core = c.core := by
  rw [advanceLatestDeliverySignals]
  split <;> rfl

@[simp] theorem core_updateRound : (c.updateRound ack).core = c.core := by
  rw [updateRound]
  split <;> rfl

@[simp] theorem core_updateMaxBw : (c.updateMaxBw ack).core = c.core := by
  rw [updateMaxBw]
  simp only
  split
  · exact core_updateRound
  · exact core_updateRound

@[simp] theorem core_updateAckAggregation : (c.updateAckAggregation ack ts).core = c.core := by
  rw [updateAckAggregation]
  simp only
  split <;> rfl

@[simp] theorem core_checkFullBwReached : c.checkFullBwReached.core = c.core := by
  rw [checkFullBwReached]
  simp only
  split_ifs <;> rfl

@[simp] theorem core_checkStartupHighLoss : c.checkStartupHighLoss.core = c.core := by
  rw [checkStartupHighLoss]
  simp only
  split_ifs
  · rfl
  · rfl
  · exact core_bdpMultiple _

@[simp] theorem core_advanceAckPhase : c.advanceAckPhase.core = c.core := by
  rw [advanceAckPhase]
  simp only
  split_ifs <;> rfl

@[simp] theorem core_raiseInflightLongterm : c.raiseInflightLongterm.core = c.core := by
  rw [raiseInflightLongterm]
  split <;> rfl

@[simp] theorem core_undoLimits : c.undoLimits.core = c.core := rfl

@[simp] theorem core_isTimeToCruise : c.isTimeToCruise.1.core = c.core :=
  core_inflight 100

@[simp] theorem core_isTimeToGoDown : c.isTimeToGoDown.1.core = c.core := by
  rw [isTimeToGoDown]
  split <;> rfl

@[simp] theorem core_updateMinRtt : (c.updateMinRtt ack ts).core = c.core := by
  rw [updateMinRtt]
  simp only
  split_ifs <;> rfl

@[simp] theorem core_probeRttCwnd : c.probeRttCwnd.1.core = c.core :=
  core_bdpMultiple 50

@[simp] theorem core_markConnectionAppLimited : c.markConnectionAppLimited.core = c.core := rfl

@[simp] theorem core_boundBwForModel : c.boundBwForModel.core = c.core := rfl

@[simp] theorem core_updateMaxInflight : c.updateMaxInflight.core = c.core :=
  core_bdpMultiple _

end Frame

/-- The function does not stop, keeps the invariant, and neither enters nor leaves ProbeRTT. -/
def Safe (now : Nat) (c : Cc) (x : Except BbrStop Cc) : Prop :=
  Ends (fun _ => False) (fun c' => c.core.Keeps now c'.core) x

theorem Safe.bind {x : Except BbrStop Cc} {f : Cc → Except BbrStop Cc} (hx : Safe ts c x)
    (hf : ∀ c₁, c.core.Keeps ts c₁.core → Safe ts c₁ (f c₁)) : Safe ts c (x >>= f) := by
  apply Ends.bind hx
  intro c₁ h₁
  apply (hf c₁ h₁).mono
  exact fun c₂ h₂ => h₁.trans h₂

theorem Safe.of_core {x : Except BbrStop Cc} (hcore : c'.core = c.core) (hx : Safe ts c' x) : Safe ts c x := by
  rw [Safe, hcore] at hx
  exact hx

theorem div_ends {a b : Nat} (hb : 0 < b) : Ends (fun _ => False) (fun q => q = a / b) (div a b) := by
  rw [div, if_neg (Nat.ne_of_gt hb)]
  rfl

theorem le_atMost {a n : Nat} {m : WithTop Nat} (hn : a ≤ n) (hm : (a : WithTop Nat) ≤ m) : a ≤ atMost n m := by
  cases m with
  | top => exact hn
  | coe m => exact Nat.le_min.mpr ⟨hn, WithTop.coe_le_coe.mp hm⟩

theorem inflightAtLoss_ends {pkt : CcPkt} {lost : Nat} (htx : pkt.pktlen ≤ pkt.txInFlight) (hlost : pkt.pktlen ≤ lost) :
    Ends (fun _ => False) (fun _ => True) (inflightAtLoss pkt lost) := by
  rw [inflightAtLoss, if_neg (fun hor => hor.elim (Nat.not_lt.mpr htx) (Nat.not_lt.mpr hlost))]
  simp only
  split <;> trivial

theorem rst_noteLoss : c.noteLoss.rst = c.rst := by
  rw [noteLoss]
  simp only
  split <;> rfl

section Inv

variable (h : c.core.Inv ts)

include h

theorem ok_safe : Safe ts c (.ok c) :=
  h.keeps rfl

theorem setPacingRateWithGain_safe {gain : Nat} (hgain : 0 < gain) : Safe ts c (c.setPacingRateWithGain gain) := by
  rw [setPacingRateWithGain]
  split
  · exact ok_safe h
  · rename_i hbw
    apply Ends.bind (div_ends hgain)
    intro _ _
    apply Ends.bind (div_ends (Nat.pos_of_ne_zero hbw))
    intro interval _
    simp only
    split
    · exact h.withPacingIntervalM (Nat.lt_of_lt_of_le Nat.one_pos (Nat.le_max_right _ _))
    · exact ok_safe h

theorem setSendQuantum_safe : Safe ts c c.setSendQuantum := by
  apply Ends.bind (div_ends h.pacing)
  intro _ _
  exact h.keeps rfl

/-- The growth of a round is a word, since there are 30 rounds at most. -/
theorem growth_pos : 0 < mul c.stat.maxTxUdpPayloadSize (2 ^ c.bbr.bwProbeUpRounds) := by
  have hle : c.stat.maxTxUdpPayloadSize * 2 ^ c.bbr.bwProbeUpRounds ≤ 65527 * 2 ^ 30 :=
    Nat.mul_le_mul h.size_le (Nat.pow_le_pow_right (by decide) h.rounds)
  rw [mul, Nat.mod_eq_of_lt (Nat.lt_of_le_of_lt hle (by decide))]
  exact Nat.mul_pos (Nat.lt_of_lt_of_le (by decide) h.size) (Nat.pow_pos (by decide))

theorem raiseInflightLongtermSlope_safe : Safe ts c c.raiseInflightLongtermSlope := by
  apply Ends.bind (div_ends (growth_pos h))
  intro cnt _
  refine ⟨{ h with probeUpCnt := ?_, rounds := Nat.min_le_right _ _ }, Iff.rfl, rfl, rfl, rfl⟩
  have hpos : max cnt 1 ≠ 0 := by omega
  exact fun hzero => hpos (WithTop.coe_eq_zero.mp hzero)

theorem startProbeBwUp_safe (hs : c.bbr.state.probesBw = true ∨ c.bbr.undoState.probesBw = true)
    (hrtt : c.bbr.state ≠ .probeRtt) : Safe ts c c.startProbeBwUp := by
  have hup : c.core.Keeps ts c.enterProbeBwUp.core :=
    Core.Inv.keepsOut (h.cycles hs .probeBwUp 125 (by decide) (by decide)) hrtt (fun hs => by cases hs) rfl rfl rfl
  apply (raiseInflightLongtermSlope_safe hup.inv).mono
  exact fun c' hkeeps => hup.trans hkeeps

theorem startProbeBwDown_keeps (hrtt : c.bbr.state ≠ .probeRtt) : c.core.Keeps ts (c.startProbeBwDown ts).core :=
  Core.Inv.keepsOut h.down hrtt (fun hs => by cases hs) rfl rfl rfl

theorem startProbeBwCruise_keeps (hs : c.bbr.state.probesBw = true) (hrtt : c.bbr.state ≠ .probeRtt) :
    c.core.Keeps ts c.startProbeBwCruise.core :=
  Core.Inv.keepsOut (h.cycles (Or.inl hs) .probeBwCruise 100 (by decide) (by decide)) hrtt (fun hs => by cases hs) rfl rfl rfl

theorem startProbeBwRefill_keeps (hs : c.bbr.state.probesBw = true) (hrtt : c.bbr.state ≠ .probeRtt) :
    c.core.Keeps ts c.startProbeBwRefill.core := by
  have hrefill := h.cycles (Or.inl hs) .probeBwRefill 100 (by decide) (by decide)
  exact Core.Inv.keepsOut (hrefill.withRounds (Nat.zero_le 30)).inv hrtt (fun hs => by cases hs) rfl rfl rfl

theorem enterStartup_keeps (hrtt : c.bbr.state ≠ .probeRtt) : c.core.Keeps ts c.enterStartup.core :=
  Core.Inv.keepsOut (h.enters .startup 277 rfl (by decide) (by decide)) hrtt (fun hs => by cases hs) rfl rfl rfl

theorem enterDrain_keeps (hrtt : c.bbr.state ≠ .probeRtt) : c.core.Keeps ts c.enterDrain.core :=
  Core.Inv.keepsOut (h.enters .drain 50 rfl (by decide) (by decide)) hrtt (fun hs => by cases hs) rfl rfl rfl

theorem saveCwnd_keeps : c.core.Keeps ts c.saveCwnd.core := by
  rw [saveCwnd]
  split
  · rename_i hand
    exact h.withPriorCwnd fun hs => absurd hs hand.2
  · exact h.withPriorCwnd fun _ => Nat.le_max_left _ _

theorem restoreCwnd_keeps : c.core.Keeps ts c.restoreCwnd.core :=
  h.withCwnd (h.cwnd.trans (Nat.le_max_left _ _))

theorem handleRecovery_keeps : c.core.Keeps ts (c.handleRecovery ack).core := by
  rw [handleRecovery]
  split_ifs
  · exact h.keeps rfl
  · exact restoreCwnd_keeps (c := { c with bbr.inLossRecovery := false, bbr.roundCountAtRecovery := ⊤ }) h
  · exact h.keeps rfl

/-- Both bounds are set when they are scaled. -/
theorem adaptLowerBoundsFromCongestion_safe : Safe ts c c.adaptLowerBoundsFromCongestion := by
  rw [adaptLowerBoundsFromCongestion]
  split_ifs
  · exact ok_safe h
  · obtain ⟨bw, hbw⟩ : ∃ bw : Nat, c.initLowerBounds.bbr.bwShortterm = bw := by
      apply (WithTop.ne_top_iff_exists.mp ?_).imp fun _ => Eq.symm
      simp only [initLowerBounds]
      split
      · exact WithTop.coe_ne_top
      · assumption
    obtain ⟨inflight, hinflight⟩ : ∃ inflight : Nat, c.initLowerBounds.bbr.inflightShortterm = inflight := by
      apply (WithTop.ne_top_iff_exists.mp ?_).imp fun _ => Eq.symm
      simp only [initLowerBounds]
      split
      · exact WithTop.coe_ne_top
      · assumption
    rw [lossLowerBounds, hbw, hinflight]
    exact h.keeps rfl
  · exact ok_safe h

theorem updateCongestionSignals_safe : Safe ts c (c.updateCongestionSignals ack) := by
  rw [updateCongestionSignals]
  have hcore : (if ack.bytesLost ≠ 0 then
      { c.updateMaxBw ack with
        bbr.bytesLostInRound := (c.updateMaxBw ack).bbr.bytesLostInRound + ack.bytesLost
        bbr.lossEventsInRound := (c.updateMaxBw ack).bbr.lossEventsInRound + 1 }
      else c.updateMaxBw ack).core = c.core := core_ite core_updateMaxBw core_updateMaxBw
  simp only
  generalize ite (ack.bytesLost ≠ 0) _ (c.updateMaxBw ack) = c₁ at hcore ⊢
  apply Safe.of_core hcore
  rw [← hcore] at h
  split
  · exact ok_safe h
  · apply (adaptLowerBoundsFromCongestion_safe h).bind
    exact fun c₂ h₂ => h₂.inv.keeps rfl

theorem checkStartupDone_keeps : c.core.Keeps ts c.checkStartupDone.core := by
  have hkeeps : c.core.Keeps ts c.checkStartupHighLoss.core := h.keeps core_checkStartupHighLoss
  rw [checkStartupDone]
  split
  · rename_i hand
    refine hkeeps.trans (enterDrain_keeps hkeeps.inv ?_)
    rw [hand.1]
    decide
  · exact hkeeps

theorem checkDrainDone_keeps : c.core.Keeps ts (c.checkDrainDone ts).core := by
  have hcore : (c.inflight 100).1.core = c.core := core_inflight 100
  rw [checkDrainDone]
  split
  · rename_i hdrain
    generalize c.inflight 100 = p at hcore ⊢
    have hkeeps : c.core.Keeps ts p.1.core := h.keeps hcore
    have hstate : p.1.bbr.state = .drain := (congrArg Core.state hcore).trans hdrain
    show c.core.Keeps ts (if _ then _ else _ : Cc).core
    split
    · refine hkeeps.trans (startProbeBwDown_keeps hkeeps.inv ?_)
      rw [hstate]
      decide
    · exact hkeeps
  · exact h.keeps rfl

theorem growInflightLongterm_safe : Safe ts c c.growInflightLongterm := by
  rw [growInflightLongterm]
  split
  · exact ok_safe h
  · rename_i probeUpCnt hcnt
    have hne : probeUpCnt ≠ 0 := by
      rintro rfl
      exact h.probeUpCnt hcnt
    split
    · apply Ends.bind (div_ends (Nat.pos_of_ne_zero hne))
      intro _ _
      exact h.keeps rfl
    · exact ok_safe h

theorem probeInflightLongtermUpward_safe : Safe ts c (c.probeInflightLongtermUpward ack) := by
  rw [probeInflightLongtermUpward]
  split
  · exact ok_safe h
  · refine (Safe.of_core rfl (growInflightLongterm_safe ?_)).bind ?_
    · exact h
    intro c₁ h₁
    split
    · exact raiseInflightLongtermSlope_safe h₁.inv
    · exact ok_safe h₁.inv

theorem adaptLongtermModel_safe : Safe ts c (c.adaptLongtermModel ack) := by
  have hcore : (c.advanceAckPhase.isInflightTooHigh c.advanceAckPhase.rst.rs.lost c.advanceAckPhase.rst.rs.txInFlight).1.core =
      c.core := core_advanceAckPhase
  rw [adaptLongtermModel]
  generalize c.advanceAckPhase.isInflightTooHigh c.advanceAckPhase.rst.rs.lost c.advanceAckPhase.rst.rs.txInFlight = p
    at hcore ⊢
  obtain ⟨c₁, tooHigh⟩ := p
  apply Safe.of_core hcore
  rw [← hcore] at h
  show Safe ts c₁ (if _ then _ else _)
  split
  · exact ok_safe h
  · apply Safe.of_core core_raiseInflightLongterm
    rw [← core_raiseInflightLongterm] at h
    show Safe ts _ (if _ then _ else _)
    split
    · exact probeInflightLongtermUpward_safe h
    · exact ok_safe h

theorem isRenoCoexistenceProbeTime_ends : Ends (fun _ => False) (fun _ => True) c.isRenoCoexistenceProbeTime := by
  apply Ends.bind (div_ends (Nat.lt_of_lt_of_le (by decide) h.size))
  exact fun _ _ => trivial

theorem isTimeToProbeBw_ends (hs : c.bbr.state.probesBw = true) (hrtt : c.bbr.state ≠ .probeRtt) :
    Ends (fun _ => False) (fun p => c.core.Keeps ts p.1.core ∧ p.1.bbr.state.probesBw = true) (c.isTimeToProbeBw ts) := by
  obtain ⟨stamp, -, hstamp⟩ := h.stamped (Or.inl hs)
  have helapsed : c.hasElapsedInPhase ts c.bbr.bwProbeWait = .ok (decide (ts > stamp + c.bbr.bwProbeWait)) := by
    rw [hasElapsedInPhase, show c.bbr.cycleStamp = some stamp from hstamp]
  rw [isTimeToProbeBw, helapsed]
  show Ends _ _ (if _ then _ else _)
  split
  · exact ⟨startProbeBwRefill_keeps h hs hrtt, rfl⟩
  · apply Ends.bind (isRenoCoexistenceProbeTime_ends h)
    intro probes _
    split
    · exact ⟨startProbeBwRefill_keeps h hs hrtt, rfl⟩
    · exact ⟨h.keeps rfl, hs⟩

theorem updateProbeBwCyclePhase_safe : Safe ts c (c.updateProbeBwCyclePhase ack ts) := by
  rw [updateProbeBwCyclePhase]
  split
  · exact ok_safe h
  · apply (adaptLongtermModel_safe h).bind
    intro c₁ h₁
    have hi := h₁.inv
    split
    case h_1 hs =>
      apply Ends.bind (isTimeToProbeBw_ends hi (by rw [hs]; rfl) (by rw [hs]; decide))
      rintro ⟨c₂, probes⟩ ⟨h₂, hs₂⟩
      show Ends _ _ (if _ then _ else _)
      split
      · exact h₂
      · have h₃ : c₂.core.Keeps ts c₂.isTimeToCruise.1.core := h₂.inv.keeps core_isTimeToCruise
        have hs₃ : c₂.isTimeToCruise.1.bbr.state = c₂.bbr.state := congrArg Core.state core_isTimeToCruise
        generalize c₂.isTimeToCruise = p at h₃ hs₃ ⊢
        show Ends _ _ (if _ then _ else _)
        split
        · rw [← hs₃] at hs₂
          exact h₂.trans (h₃.trans (startProbeBwCruise_keeps h₃.inv hs₂ (fun hrtt => by rw [hrtt] at hs₂; cases hs₂)))
        · exact h₂.trans h₃
    case h_2 hs =>
      apply Ends.bind (isTimeToProbeBw_ends hi (by rw [hs]; rfl) (by rw [hs]; decide))
      exact fun p hp => hp.1
    case h_3 hs =>
      split
      · exact startProbeBwUp_safe (c := { c₁ with bbr.bwProbeSamples := true }) hi (Or.inl (congrArg BbrState.probesBw hs))
          (fun hrtt => by rw [hs] at hrtt; cases hrtt)
      · exact ok_safe hi
    case h_4 hs =>
      have h₂ : c₁.core.Keeps ts c₁.isTimeToGoDown.1.core := hi.keeps core_isTimeToGoDown
      have hs₂ : c₁.isTimeToGoDown.1.bbr.state = c₁.bbr.state := congrArg Core.state core_isTimeToGoDown
      generalize c₁.isTimeToGoDown = p at h₂ hs₂ ⊢
      show Safe ts c₁ (if _ then _ else _)
      split
      · rw [hs] at hs₂
        exact h₂.trans (startProbeBwDown_keeps h₂.inv (fun hrtt => by rw [hrtt] at hs₂; cases hs₂))
      · exact h₂
    case h_5 => exact ok_safe hi

theorem exitProbeRtt_moves (hle : c.entryCwnd ≤ c.stat.cwnd) :
    c.core.Moves ts (c.exitProbeRtt ts).core := by
  have hi := h.withExits ((c.entryCwnd, c.stat.cwnd) :: c.exits)
  have hne : (c.exitProbeRtt ts).core.state ≠ .probeRtt := by
    rw [exitProbeRtt]
    simp only
    split
    · exact fun hs => by cases hs
    · exact fun hs => by cases hs
  have hexits : (c.exitProbeRtt ts).core.exits = (c.entryCwnd, c.stat.cwnd) :: c.exits := by
    rw [exitProbeRtt]
    simp only
    split <;> rfl
  have hlost : (c.exitProbeRtt ts).core.lost = c.rst.lost := by
    rw [exitProbeRtt]
    simp only
    split <;> rfl
  refine ⟨?_, hlost, fun _ hs' => absurd hs' hne, fun _ _ => ⟨c.stat.cwnd, hexits, hle⟩⟩
  rw [exitProbeRtt]
  simp only
  split
  · exact hi.down.cycles (Or.inl rfl) .probeBwCruise 100 (by decide) (by decide)
  · exact hi.enters .startup 277 rfl (by decide) (by decide)

theorem checkProbeRttDone_moves (hs : c.bbr.state = .probeRtt) : c.core.Moves ts (c.checkProbeRttDone ts).core := by
  rw [checkProbeRttDone]
  split
  · have hkeeps : c.core.Keeps ts ({ c with bbr.probeRttMinStamp := ts }.restoreCwnd).core :=
      restoreCwnd_keeps (c := { c with bbr.probeRttMinStamp := ts }) h
    exact hkeeps.trans_moves (exitProbeRtt_moves hkeeps.inv ((h.entry hs).trans (Nat.le_max_right _ _)))
  · exact (h.keeps rfl).moves

theorem handleProbeRtt_moves (hs : c.bbr.state = .probeRtt) : c.core.Moves ts (c.handleProbeRtt ts).core := by
  rw [handleProbeRtt]
  split
  · have hcore : c.markConnectionAppLimited.probeRttCwnd.1.core = c.core := core_probeRttCwnd
    generalize c.markConnectionAppLimited.probeRttCwnd = p at hcore ⊢
    show c.core.Moves ts (if _ then _ else _ : Cc).core
    split
    · exact (h.keeps hcore).moves
    · exact (h.keeps hcore).moves
  · simp only
    split_ifs
    · exact checkProbeRttDone_moves (c := { c.markConnectionAppLimited with bbr.probeRttRoundDone := true }) h hs
    · exact (h.keeps rfl).moves
    · exact checkProbeRttDone_moves (c := c.markConnectionAppLimited) h hs
    · exact (h.keeps rfl).moves

theorem startProbeRtt_moves (hrtt : c.bbr.state ≠ .probeRtt) : c.core.Moves ts c.startProbeRtt.core := by
  have hcore : c.startProbeRtt.core = { c.core with
      state := .probeRtt, pacingGainH := 100, entryCwnd := c.stat.cwnd, priorCwnd := max c.bbr.priorCwnd c.stat.cwnd } := by
    have hsave : c.enterProbeRtt.saveCwnd =
        { c.enterProbeRtt with bbr.priorCwnd := max c.bbr.priorCwnd c.stat.cwnd } := if_neg (fun hand => hand.2 rfl)
    rw [startProbeRtt, hsave]
    rfl
  rw [hcore]
  exact h.probesRtt.moves hrtt rfl

theorem checkProbeRtt_moves : c.core.Moves ts (c.checkProbeRtt ts).core := by
  have hidle (c₁ : Cc) : (if c₁.rst.rs.delivered ≠ 0 then { c₁ with bbr.idleRestart := false } else c₁).core = c₁.core :=
    core_ite rfl rfl
  rw [checkProbeRtt]
  simp only
  rw [hidle]
  split_ifs with henter hs hs
  · have hstart := startProbeRtt_moves h henter.1
    have hhandle := handleProbeRtt_moves hstart.inv hs
    exact hhandle.inv.moves henter.1 (hhandle.lost.trans hstart.lost)
  · exact startProbeRtt_moves h henter.1
  · exact handleProbeRtt_moves h hs
  · exact (h.keeps rfl).moves

theorem updateModelAndState_moves :
    Ends (fun _ => False) (fun c' => c.core.Moves ts c'.core) (c.updateModelAndState ack ts) := by
  have h₁ : Safe ts c (c.updateLatestDeliverySignals.updateCongestionSignals ack) := by
    apply Safe.of_core core_updateLatestDeliverySignals
    apply updateCongestionSignals_safe
    rwa [core_updateLatestDeliverySignals]
  rw [updateModelAndState]
  apply Ends.bind h₁
  intro c₁ h₁
  have h₂ : c₁.core.Keeps ts (c₁.updateAckAggregation ack ts).checkFullBwReached.core :=
    h₁.inv.keeps (core_checkFullBwReached.trans core_updateAckAggregation)
  have h₃ := checkStartupDone_keeps h₂.inv
  have h₄ := checkDrainDone_keeps h₃.inv
  apply Ends.bind (updateProbeBwCyclePhase_safe h₄.inv)
  intro c₅ h₅
  have h₆ : c₅.core.Keeps ts (c₅.updateMinRtt ack ts).core := h₅.inv.keeps core_updateMinRtt
  have h₇ := checkProbeRtt_moves h₆.inv
  have h₈ := h₇.trans_keeps (h₇.inv.keeps (core_boundBwForModel.trans core_advanceLatestDeliverySignals))
  exact (h₁.trans (h₂.trans (h₃.trans (h₄.trans (h₅.trans h₆))))).trans_moves h₈

theorem boundCwndForProbeRtt_keeps : c.core.Keeps ts c.boundCwndForProbeRtt.core := by
  have hcore : c.probeRttCwnd.1.core = c.core := core_probeRttCwnd
  have hle : c.probeRttCwnd.1.minPipeCwnd ≤ c.probeRttCwnd.2 := Nat.le_max_right _ _
  rw [boundCwndForProbeRtt]
  split
  · generalize c.probeRttCwnd = p at hcore hle ⊢
    have hi : c.core.Keeps ts p.1.core := h.keeps hcore
    exact hi.trans (hi.inv.withCwnd (Nat.le_min.mpr ⟨hi.inv.cwnd, hle⟩))
  · exact h.keeps rfl

theorem boundCwndForModel_keeps : c.core.Keeps ts c.boundCwndForModel.core :=
  h.withCwnd (le_atMost h.cwnd (le_max_right _ _))

theorem setCwnd_keeps : c.core.Keeps ts (c.setCwnd ack).core := by
  have h₁ : c.core.Keeps ts c.updateMaxInflight.core := h.keeps core_updateMaxInflight
  rw [setCwnd]
  simp only
  generalize c.updateMaxInflight = c₁ at h₁ ⊢
  have h₂ := h₁.trans (h₁.inv.withCwnd (Nat.le_max_right
    (if c₁.bbr.fullBwReached then min (c₁.stat.cwnd + ack.bytesDelivered) c₁.bbr.maxInflight
      else if c₁.stat.cwnd < c₁.bbr.maxInflight ∨ c₁.rst.delivered < c₁.bbr.initialCwnd then
        c₁.stat.cwnd + ack.bytesDelivered
      else c₁.stat.cwnd) c₁.minPipeCwnd))
  have h₃ := boundCwndForProbeRtt_keeps (c := { c₁ with stat.cwnd := max _ c₁.minPipeCwnd }) h₂.inv
  exact h₂.trans (h₃.trans (boundCwndForModel_keeps h₃.inv))

theorem updateControlParameters_safe : Safe ts c (c.updateControlParameters ack) := by
  apply (setPacingRateWithGain_safe h h.gain).bind
  intro c₁ h₁
  apply (setSendQuantum_safe h₁.inv).bind
  intro c₂ h₂
  exact setCwnd_keeps h₂.inv

theorem onAckRecv_moves : Ends (fun _ => False) (fun c' => c.core.Moves ts c'.core) (c.onAckRecv ack ts) := by
  have h₁ : c.core.Keeps ts (c.handleRecovery ack).core := handleRecovery_keeps h
  rw [onAckRecv]
  split
  · exact h₁.moves
  · apply Ends.bind (updateModelAndState_moves h₁.inv)
    intro c₂ h₂
    apply (updateControlParameters_safe h₂.inv).mono
    exact fun c₃ h₃ => h₁.trans_moves (h₂.trans_keeps h₃)

theorem noteLoss_keeps : c.core.Keeps ts c.noteLoss.core := by
  rw [noteLoss]
  simp only
  split
  · exact ⟨h.withUndoState, Iff.rfl, rfl, rfl, rfl⟩
  · exact h.keeps rfl

theorem handleInflightTooHigh_keeps (txInFlight : Nat) (isAppLimited : Bool) :
    c.core.Keeps ts (c.handleInflightTooHigh ts txInFlight isAppLimited).core := by
  rw [handleInflightTooHigh]
  simp only
  split_ifs with _ hs hs
  · exact startProbeBwDown_keeps h fun hrtt => by rw [hrtt] at hs; cases hs
  · exact h.keeps rfl
  · exact startProbeBwDown_keeps h fun hrtt => by rw [hrtt] at hs; cases hs
  · exact h.keeps rfl

theorem onPktLost_safe {pkt : CcPkt} (htx : pkt.pktlen ≤ pkt.txInFlight) (hlost : pkt.lost + pkt.pktlen ≤ c.rst.lost) :
    Safe ts c (c.onPktLost ts pkt) := by
  have h₁ : c.core.Keeps ts c.noteLoss.core := noteLoss_keeps h
  rw [onPktLost]
  simp only [rst_noteLoss]
  have h₂ : c.core.Keeps ts (c.noteLoss.isInflightTooHigh (c.rst.lost - pkt.lost) pkt.txInFlight).1.core := h₁
  split_ifs with hsamples hlt
  · exact h₁
  · exact absurd hlt (by omega)
  · apply Ends.bind (inflightAtLoss_ends htx (by omega))
    intro txInFlight _
    exact h₂.trans (handleInflightTooHigh_keeps h₂.inv _ _)
  · exact h₂

theorem congestionEvent_keeps (sentTs : Nat) : c.core.Keeps ts (c.congestionEvent ts sentTs).core := by
  rw [congestionEvent]
  split
  · exact h.keeps rfl
  · exact saveCwnd_keeps (c := { c with
      bbr.inLossRecovery := true
      bbr.roundCountAtRecovery := (if c.bbr.roundStart then c.bbr.roundCount else c.bbr.roundCount + 1 : Nat) }) h

theorem handleSpuriousLossDetection_safe : Safe ts c c.handleSpuriousLossDetection := by
  rw [handleSpuriousLossDetection]
  apply Safe.of_core core_undoLimits
  rw [← core_undoLimits] at h
  show Safe ts _ (if _ then _ else _)
  split
  · rename_i hand
    split
    case h_1 => exact enterStartup_keeps h hand.1
    case h_2 hundo => exact startProbeBwUp_safe h (Or.inr (congrArg BbrState.probesBw hundo)) hand.1
    case h_3 => exact ok_safe h
  · exact ok_safe h

theorem onSpuriousCongestion_safe : Safe ts c c.onSpuriousCongestion := by
  have h₁ := restoreCwnd_keeps (c := { c with
    stat.congestionRecoveryStartTs := ⊤
    bbr.inLossRecovery := false
    bbr.roundCountAtRecovery := ⊤ }) h
  apply (handleSpuriousLossDetection_safe h₁.inv).mono
  exact fun c₂ h₂ => h₁.trans h₂

theorem onPersistentCongestion_keeps : c.core.Keeps ts c.onPersistentCongestion.core := by
  have h₁ := saveCwnd_keeps (c := { c with
    stat.congestionRecoveryStartTs := ⊤
    bbr.inLossRecovery := false
    bbr.roundCountAtRecovery := ⊤ }) h
  exact h₁.trans (h₁.inv.withCwnd (Nat.le_max_right _ _))

theorem onPktSent_moves : Ends (fun _ => False) (fun c' => c.core.Moves ts c'.core) (c.onPktSent ts) := by
  rw [onPktSent]
  split
  · simp only
    split_ifs with _ hs
    · apply (setPacingRateWithGain_safe (c := { c with bbr.idleRestart := true, bbr.extraAckedIntervalStart := ts }) h
        (by decide : 0 < 100)).mono
      exact fun c' h' => h'.moves
    · exact checkProbeRttDone_moves (c := { c with bbr.idleRestart := true, bbr.extraAckedIntervalStart := ts }) h hs
    · exact (h.keeps rfl).moves
  · exact (h.keeps rfl).moves

end Inv

theorem onInit_ends (hinitial : 0 < c.bbr.initialCwnd) (hsize : 1200 ≤ c.stat.maxTxUdpPayloadSize)
    (hsize_le : c.stat.maxTxUdpPayloadSize ≤ 65527) (hcwnd : c.stat.maxTxUdpPayloadSize * 4 ≤ c.stat.cwnd)
    (hdowns : ∀ t ∈ c.downs, t ≤ ts) :
    Ends (fun _ => False) (fun c' => c'.core.Inv ts ∧ c'.exits = c.exits ∧ c'.downs = c.downs) (c.onInit ts) := by
  rw [onInit, initPacingRate]
  apply Ends.bind (div_ends hinitial)
  intro interval _
  refine ⟨⟨fun hs => ?_, hdowns, WithTop.top_ne_zero, Nat.zero_le 30, Nat.succ_pos 276, hinitial, hsize, hsize_le, hcwnd,
    Nat.lt_of_lt_of_le Nat.one_pos (Nat.le_max_right _ _), fun hs => nomatch hs⟩, rfl, rfl⟩
  exact absurd (or_self_iff.mp hs) Bool.false_ne_true

end Cc

end Zngtcp2.Bbr
