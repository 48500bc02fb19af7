import Zngtcp2.Cubic.Model

namespace Zngtcp2.Cubic

open Lib.Run
open RateSample (Rst seconds)

@[simp] theorem ok_bind {α β : Type} (a : α) (f : α → Except CubicStop β) : (Except.ok a >>= f) = f a :=
  rfl

theorem mul_ok {a b : Nat} (h : a * b < 2 ^ 64) : mul a b = .ok (a * b) :=
  if_pos h

theorem div_ok {a b : Nat} (h : 0 < b) : div a b = .ok (a / b) :=
  if_neg (Nat.ne_of_gt h)

/-- The sizes of UDP payloads -/
structure Sized (max : Nat) : Prop where
  le : 1200 ≤ max
  ge : max ≤ 65527

section Arithmetic

variable {max cwnd : Nat}

theorem setPacingRate_ok {s : Stat} (hcwnd : 0 < s.cwnd) (hrtt : s.smoothedRtt < 2 ^ 45) :
    ∃ interval quantum, s.setPacingRate = .ok { s with pacingIntervalM := interval, sendQuantum := quantum } := by
  have hle : (if s.firstRttSampleTs = uint64Max then milliseconds else s.smoothedRtt) < 2 ^ 45 := by
    split
    · decide
    · exact hrtt
  rw [Stat.setPacingRate, if_neg (Nat.ne_of_gt hcwnd)]
  generalize (if s.firstRttSampleTs = uint64Max then milliseconds else s.smoothedRtt) = rtt at hle
  rw [mul_ok (by omega)]
  rw [ok_bind, mul_ok (by omega)]
  exact ⟨_, _, rfl⟩

/-- The cube of a time of at most an hour -/
theorem cube_le {d : Nat} (hd : d ≤ 3686400) : d * d ≤ 13589544960000 ∧ d * d / 1024 * d ≤ 48922361856000000 := by
  have hsquare : d * d ≤ 3686400 * 3686400 := Nat.mul_le_mul hd hd
  have hcube : d * d / 1024 * d ≤ 13271040000 * 3686400 := Nat.mul_le_mul (by omega) hd
  omega

/-- What is added to or taken from `w_max` is bounded, since the time is. -/
theorem computeWCubic_ok (hmax : Sized max) {v : CubicVars} {ts : Nat} (ht : v.elapsed ts < 2 ^ 46) :
    ∃ w, v.computeWCubic max ts = .ok w ∧ w ≤ v.wMax + 2 ^ 51 := by
  rw [CubicVars.computeWCubic, mul_ok (by omega), ok_bind]
  generalize v.elapsed ts * 1024 / seconds = txM
  have hdelta : min (if txM < v.kM then v.kM - txM else txM - v.kM) (3600 * 1024) ≤ 3686400 := Nat.min_le_right _ _
  dsimp only
  generalize min (if txM < v.kM then v.kM - txM else txM - v.kM) (3600 * 1024) = d at hdelta ⊢
  obtain ⟨hsquare, hcube⟩ := cube_le hdelta
  rw [mul_ok (by omega), ok_bind, mul_ok (by omega), ok_bind]
  generalize d * d / 1024 * d = cube at hcube ⊢
  have hsegments : cube / 1024 * max ≤ 47775744000000 * 65527 := Nat.mul_le_mul (by omega) hmax.ge
  rw [mul_ok (by omega), ok_bind]
  generalize cube / 1024 * max = segments at hsegments ⊢
  rw [mul_ok (by omega), ok_bind]
  refine ⟨_, rfl, ?_⟩
  split_ifs <;> omega

theorem target_ok {wCubicNext : Nat} (hcwnd : cwnd < 2 ^ 30) (hnext : wCubicNext < 2 ^ 60) :
    ∃ t, target cwnd wCubicNext = .ok t ∧ cwnd ≤ t ∧ t ≤ 2 * cwnd := by
  rw [target]
  split
  · exact ⟨cwnd, rfl, Nat.le_refl _, by omega⟩
  · rw [mul_ok (by omega), ok_bind, mul_ok (by omega), ok_bind]
    refine ⟨_, rfl, ?_⟩
    split_ifs <;> omega

/-- Whole windows of what is pending are taken out, and less than a window is left. -/
theorem pending_lt (total : Nat) (hcwnd : 0 < cwnd) : total - total / cwnd * cwnd < cwnd := by
  have hmod := Nat.mod_lt total hcwnd
  have hdiv := Nat.div_add_mod total cwnd
  rw [Nat.mul_comm] at hdiv
  omega

theorem growEst_ok (hmax : Sized max) {v : CubicVars} {bytesDelivered : Nat} (hlow : 2 * max ≤ cwnd) (hcwnd : cwnd < 2 ^ 30)
    (hbytes : bytesDelivered < 2 ^ 47) (hpending : v.pendingEstBytesAcked < 2 ^ 30) :
    ∃ pending wEst, v.growEst cwnd max bytesDelivered = .ok { v with pendingEstBytesAcked := pending, wEst := wEst } ∧
      pending < cwnd ∧ v.wEst ≤ wEst ∧ wEst ≤ v.wEst + 2 ^ 52 := by
  obtain ⟨hle, hge⟩ := hmax
  have hpos : 0 < cwnd := by omega
  have hprod : bytesDelivered * max ≤ 2 ^ 47 * 65527 := Nat.mul_le_mul (Nat.le_of_lt hbytes) hge
  rw [CubicVars.growEst, mul_ok (by omega)]
  generalize bytesDelivered * max = bytes at hprod
  rw [ok_bind, div_ok hpos, ok_bind]
  have htaken : (bytes + v.pendingEstBytesAcked) / cwnd * cwnd ≤ bytes + v.pendingEstBytesAcked := Nat.div_mul_le_self _ _
  have hm : (bytes + v.pendingEstBytesAcked) / cwnd ≤ 2 ^ 52 := by
    apply Nat.div_le_of_le_mul
    have hmul : 2400 * 2 ^ 52 ≤ cwnd * 2 ^ 52 := Nat.mul_le_mul_right _ (by omega)
    omega
  rw [mul_ok (by omega), ok_bind]
  have hleft := pending_lt (bytes + v.pendingEstBytesAcked) hpos
  rw [Nat.add_comm bytes] at hleft hm ⊢
  generalize (v.pendingEstBytesAcked + bytes) / cwnd = m at hleft hm ⊢
  dsimp only
  rw [if_neg (Nat.not_le.mpr hleft)]
  by_cases hprior : v.wEst < v.cwndPrior
  · rw [if_pos hprior, mul_ok (by omega), ok_bind]
    exact ⟨_, v.wEst + m * 9 / 17, rfl, hleft, by omega, by omega⟩
  · rw [if_neg hprior]
    exact ⟨_, v.wEst + m, rfl, hleft, by omega, by omega⟩

theorem growWindow_ok (hmax : Sized max) {v : CubicVars} {target : Nat} (hlow : 2 * max ≤ cwnd) (hcwnd : cwnd < 2 ^ 30)
    (htarget : target ≤ 2 * cwnd) (hpending : v.pendingBytesAcked < 2 ^ 30) :
    ∃ pending m, v.growWindow cwnd max target = .ok ({ v with pendingBytesAcked := pending }, m) ∧
      pending < cwnd ∧ m ≤ 2 ^ 47 := by
  obtain ⟨hle, hge⟩ := hmax
  have hpos : 0 < cwnd := by omega
  have hprod : (target - cwnd) * max ≤ 2 ^ 30 * 65527 := Nat.mul_le_mul (by omega) hge
  rw [CubicVars.growWindow, mul_ok (by omega)]
  generalize (target - cwnd) * max = bytes at hprod
  rw [ok_bind, div_ok hpos, ok_bind]
  have htaken : (bytes + v.pendingBytesAcked) / cwnd * cwnd ≤ bytes + v.pendingBytesAcked := Nat.div_mul_le_self _ _
  have hm : (bytes + v.pendingBytesAcked) / cwnd ≤ bytes + v.pendingBytesAcked := Nat.div_le_self _ _
  rw [mul_ok (by omega), ok_bind]
  have hleft := pending_lt (bytes + v.pendingBytesAcked) hpos
  rw [Nat.add_comm bytes] at hleft hm ⊢
  generalize (v.pendingBytesAcked + bytes) / cwnd = m at hleft hm ⊢
  dsimp only
  rw [if_neg (Nat.not_le.mpr hleft)]
  exact ⟨_, _, rfl, hleft, by omega⟩

end Arithmetic

/-- The application-limited time since the epoch is known up to now, or up to when the present such time began. -/
def CubicVars.Clocked (v : CubicVars) (now : Nat) : Prop :=
  if v.appLimitedStartTs = uint64Max then v.epochStart + v.appLimitedDuration ≤ now
  else v.epochStart + v.appLimitedDuration ≤ v.appLimitedStartTs ∧ v.appLimitedStartTs ≤ now

/-- What the variables are for a window and a threshold: in slow start they are as good as reset, and in congestion
avoidance there is an epoch, unless a persistent congestion has reset them. -/
structure CubicVars.Suits (v : CubicVars) (max cwnd ssthresh now : Nat) (epochs : List Nat) : Prop where
  two_le : 2 * max ≤ cwnd
  two_le_ssthresh : 2 * max ≤ ssthresh
  cwnd_lt : cwnd < 2 ^ 54
  wMax_lt : v.wMax < 2 ^ 48
  wEst_le : v.wEst < 2 ^ 53 ∨ v.wEst ≤ cwnd
  pending_lt : v.pendingBytesAcked < 2 ^ 30
  pendingEst_lt : v.pendingEstBytesAcked < 2 ^ 30
  collapsed : v.collapsed = true → v.epochStart = uint64Max
  fresh : cwnd < ssthresh ∨ v.collapsed = true → v.appLimitedStartTs = uint64Max ∧ v.appLimitedDuration = 0
  unlimited : v.collapsed = false → cwnd < ssthresh → ssthresh = uint64Max
  epoch : v.collapsed = false → ssthresh ≤ cwnd → v.epochStart ∈ epochs ∧ ssthresh ≤ v.wEst ∧ v.Clocked now

namespace Conn

structure Inv (max : Nat) (c : Conn) : Prop where
  size : c.stat.maxTxUdpPayloadSize = max
  current : c.cc.current.Suits max c.stat.cwnd c.stat.ssthresh c.now c.epochs
  undo : c.cc.undo.cwnd ≠ 0 → c.cc.undo.v.Suits max c.cc.undo.cwnd c.cc.undo.ssthresh c.now c.epochs
  epochs : ∀ epoch ∈ c.epochs, c.start ≤ epoch ∧ epoch ≤ c.now
  start_le : c.start ≤ c.now
  now_lt : c.now < c.start + 2 ^ 45 ∧ c.now < uint64Max
  smoothedRtt_lt : c.stat.smoothedRtt < 2 ^ 45
  delivered_lt : c.rst.rs.delivered < 2 ^ 47

end Conn

section Vars

variable {v : CubicVars} {max cwnd ssthresh now now' : Nat} {epochs : List Nat}

theorem CubicVars.Clocked.later (h : v.Clocked now) (hnow : now ≤ now') : v.Clocked now' := by
  rw [Clocked] at h ⊢
  split_ifs at h ⊢ <;> omega

theorem CubicVars.Suits.later (h : v.Suits max cwnd ssthresh now epochs) (hnow : now ≤ now') :
    v.Suits max cwnd ssthresh now' epochs :=
  { h with
    epoch := fun hcollapsed hle => by
      obtain ⟨hmem, hest, hclock⟩ := h.epoch hcollapsed hle
      exact ⟨hmem, hest, hclock.later hnow⟩ }

theorem CubicVars.Suits.cons (h : v.Suits max cwnd ssthresh now epochs) (epoch : Nat) :
    v.Suits max cwnd ssthresh now (epoch :: epochs) :=
  { h with
    epoch := fun hcollapsed hle => by
      obtain ⟨hmem, hest, hclock⟩ := h.epoch hcollapsed hle
      exact ⟨List.mem_cons_of_mem _ hmem, hest, hclock⟩ }

/-- When the application is not the limit any more, the time it has been is known up to now. -/
theorem CubicVars.Clocked.resume (h : v.Clocked now) (hnow : now < uint64Max) :
    (v.resume now).appLimitedStartTs = uint64Max ∧ (v.resume now).epochStart = v.epochStart ∧
      v.epochStart + (v.resume now).appLimitedDuration ≤ now := by
  have hmax : uint64Max = 2 ^ 64 - 1 := rfl
  rw [Clocked] at h
  rw [CubicVars.resume]
  split_ifs at h ⊢ with hstart
  · exact ⟨hstart, rfl, h⟩
  · refine ⟨rfl, rfl, ?_⟩
    simp only [add64, sub64]
    omega

theorem resume_collapsed (v : CubicVars) (ts : Nat) : (v.resume ts).collapsed = v.collapsed := by
  rw [CubicVars.resume]
  split <;> rfl

/-- The application is not the limit any more. -/
theorem CubicVars.Suits.resume (h : v.Suits max cwnd ssthresh now epochs) (hnow : now < uint64Max)
    (hcollapsed : v.collapsed = false) (havoids : ssthresh ≤ cwnd) : (v.resume now).Suits max cwnd ssthresh now epochs := by
  obtain ⟨hmem, hest, hclock⟩ := h.epoch hcollapsed havoids
  obtain ⟨-, -, hle⟩ := hclock.resume hnow
  by_cases hstart : v.appLimitedStartTs = uint64Max
  · rwa [CubicVars.resume, if_pos hstart]
  · rw [CubicVars.resume, if_neg hstart] at hle ⊢
    exact { h with
      fresh := fun hfresh => by
        rcases hfresh with hlt | hcol
        · exact absurd hlt (Nat.not_lt.mpr havoids)
        · cases hcollapsed.symm.trans hcol
      epoch := fun _ _ => ⟨hmem, hest, by rwa [CubicVars.Clocked, if_pos rfl]⟩ }

/-- The application begins to be the limit. -/
theorem CubicVars.Suits.limited (h : v.Suits max cwnd ssthresh now epochs) (hnow : now < uint64Max)
    (hcollapsed : v.collapsed = false) (havoids : ssthresh ≤ cwnd) (hstart : v.appLimitedStartTs = uint64Max) :
    CubicVars.Suits { v with appLimitedStartTs := now } max cwnd ssthresh now epochs := by
  obtain ⟨hmem, hest, hclock⟩ := h.epoch hcollapsed havoids
  rw [Clocked, if_pos hstart] at hclock
  exact { h with
    fresh := fun hfresh => by
      rcases hfresh with hlt | hcol
      · exact absurd hlt (Nat.not_lt.mpr havoids)
      · cases hcollapsed.symm.trans hcol
    epoch := fun _ _ => ⟨hmem, hest, by
      rw [Clocked, if_neg (Nat.ne_of_lt hnow)]
      exact ⟨hclock, Nat.le_refl _⟩⟩ }

/-- The window grows in congestion avoidance. -/
theorem CubicVars.Suits.grown (h : v.Suits max cwnd ssthresh now epochs) (hcollapsed : v.collapsed = false)
    (havoids : ssthresh ≤ cwnd) {cwnd' pending pendingEst wEst : Nat} (hlow : ssthresh ≤ cwnd') (hhigh : cwnd' < 2 ^ 54)
    (hpending : pending < 2 ^ 30) (hpendingEst : pendingEst < 2 ^ 30) (hest : v.wEst ≤ wEst)
    (hwEst : wEst < 2 ^ 53 ∨ wEst ≤ cwnd') :
    CubicVars.Suits { v with pendingBytesAcked := pending, pendingEstBytesAcked := pendingEst, wEst := wEst }
      max cwnd' ssthresh now epochs := by
  obtain ⟨hmem, hthreshold, hclock⟩ := h.epoch hcollapsed havoids
  exact {
    two_le := Nat.le_trans h.two_le_ssthresh hlow
    two_le_ssthresh := h.two_le_ssthresh
    cwnd_lt := hhigh
    wMax_lt := h.wMax_lt
    wEst_le := hwEst
    pending_lt := hpending
    pendingEst_lt := hpendingEst
    collapsed := h.collapsed
    fresh := fun hfresh => by
      rcases hfresh with hlt | hcol
      · exact absurd hlt (Nat.not_lt.mpr hlow)
      · cases hcollapsed.symm.trans hcol
    unlimited := fun _ hlt => absurd hlt (Nat.not_lt.mpr hlow)
    epoch := fun _ _ => ⟨hmem, Nat.le_trans hthreshold hest, hclock⟩ }

end Vars

namespace Conn

variable {max : Nat} {c : Conn}

theorem computeKM_ok (hmax : Sized max) (hsize : c.stat.maxTxUdpPayloadSize = max) {delta : Nat} (hdelta : delta < 2 ^ 30) :
    ∃ kM, c.computeKM delta = .ok kM := by
  have hle := hmax.le
  rw [computeKM, mul_ok (by omega), ok_bind, mul_ok (by omega), ok_bind, div_ok (by omega), ok_bind]
  have hn : delta * 2 ^ 30 * 10 / 4 / c.stat.maxTxUdpPayloadSize < 2 ^ 64 :=
    Nat.lt_of_le_of_lt (Nat.div_le_self _ _) (by omega)
  obtain ⟨kM, hcbrt, -⟩ := Cc.cbrt_spec hn
  rw [hcbrt]
  exact ⟨kM, rfl⟩

theorem Inv.later (h : Inv max c) {ts : Nat} (hnow : c.now ≤ ts) (hts : ts < c.start + 2 ^ 45 ∧ ts < uint64Max) :
    Inv max { c with now := ts } := by
  refine ⟨h.size, h.current.later hnow, fun hundo => (h.undo hundo).later hnow, fun epoch hmem => ?_,
    Nat.le_trans h.start_le hnow, hts, h.smoothedRtt_lt, h.delivered_lt⟩
  obtain ⟨hstart, hle⟩ := h.epochs epoch hmem
  exact ⟨hstart, Nat.le_trans hle hnow⟩

/-- The window and the variables change together. -/
theorem Inv.withWindow (h : Inv max c) {v : CubicVars} (stat : Stat)
    (hsize : stat.maxTxUdpPayloadSize = c.stat.maxTxUdpPayloadSize) (hrtt : stat.smoothedRtt = c.stat.smoothedRtt)
    (hv : v.Suits max stat.cwnd stat.ssthresh c.now c.epochs) : Inv max { c with cc.current := v, stat := stat } :=
  ⟨hsize.trans h.size, hv, h.undo, h.epochs, h.start_le, h.now_lt, hrtt.trans_lt h.smoothedRtt_lt, h.delivered_lt⟩

theorem Inv.withEpoch (h : Inv max c) : Inv max { c with epochs := c.now :: c.epochs } := by
  refine ⟨h.size, h.current.cons _, fun hundo => (h.undo hundo).cons _, ?_, h.start_le, h.now_lt, h.smoothedRtt_lt,
    h.delivered_lt⟩
  simp only [List.forall_mem_cons]
  exact ⟨⟨h.start_le, Nat.le_refl _⟩, h.epochs⟩

theorem Inv.withHs (h : Inv max c) (hs : Hs) : Inv max { c with cc.hs := hs } :=
  ⟨h.size, h.current, h.undo, h.epochs, h.start_le, h.now_lt, h.smoothedRtt_lt, h.delivered_lt⟩

theorem Inv.startRound (h : Inv max c) (roundStart : Bool) : Inv max (c.startRound roundStart) := by
  rw [Conn.startRound]
  split
  · exact ⟨h.size, h.current, h.undo, h.epochs, h.start_le, h.now_lt, h.smoothedRtt_lt, h.delivered_lt⟩
  · exact h

theorem startRound_core (c : Conn) (roundStart : Bool) :
    (c.startRound roundStart).stat = c.stat ∧ (c.startRound roundStart).cc.current = c.cc.current ∧
      (c.startRound roundStart).now = c.now := by
  rw [Conn.startRound]
  split <;> exact ⟨rfl, rfl, rfl⟩

/-- The samples of a round trip touch HyStart++ only. -/
theorem sampleRtt_eq (c : Conn) (roundStart : Bool) (rtt : Nat) :
    ∃ hs, (c.startHsRound roundStart).sampleRtt rtt = { c with cc.hs := hs } := by
  rw [Conn.startHsRound]
  split <;> exact ⟨_, rfl⟩

theorem hystart_cases (c : Conn) (ts : Nat) :
    c.hystart ts = c.exitSlowStart ts ∨ ∃ hs, c.hystart ts = { c with cc.hs := hs } := by
  rw [Conn.hystart]
  split_ifs
  · exact Or.inr ⟨_, rfl⟩
  · exact Or.inl rfl
  · exact Or.inr ⟨_, rfl⟩
  · rw [Conn.startCss]
    dsimp only
    split_ifs <;> exact Or.inr ⟨_, rfl⟩

/-- The window grows in slow start, and the variables do not matter. -/
theorem Inv.growSlowStart (h : Inv max c) (hmax : Sized max) {ack : CcAck} (hslow : c.stat.cwnd < c.stat.ssthresh)
    (hcwnd : c.stat.cwnd < 2 ^ 30) (hbytes : ack.bytesDelivered < 2 ^ 47) (isAppLimited : Bool) :
    ∃ stat, c.growSlowStart ack isAppLimited = .ok { c with stat := stat } ∧ Inv max { c with stat := stat } ∧
      stat.cwnd < 2 ^ 48 := by
  cases isAppLimited with
  | true => exact ⟨c.stat, rfl, h, Nat.lt_trans hcwnd (by decide)⟩
  | false =>
      have hle : (if c.cc.hs.cssRound ≠ 0 then ack.bytesDelivered / 4 else ack.bytesDelivered) < 2 ^ 47 := by
        split_ifs <;> omega
      rw [Conn.growSlowStart, if_neg Bool.false_ne_true]
      dsimp only
      generalize (if c.cc.hs.cssRound ≠ 0 then ack.bytesDelivered / 4 else ack.bytesDelivered) = bytes at hle ⊢
      have hcur := h.current
      have hsize := hmax.le
      have htwo := hcur.two_le
      obtain ⟨interval, quantum, hrate⟩ :=
        setPacingRate_ok (s := { c.stat with cwnd := c.stat.cwnd + bytes }) (Nat.add_pos_left (by omega) _) h.smoothedRtt_lt
      rw [hrate, ok_bind]
      have hgrown : c.stat.cwnd + bytes < 2 ^ 48 := by omega
      refine ⟨_, rfl, h.withWindow _ rfl rfl { hcur with
        two_le := Nat.le_add_right_of_le htwo
        cwnd_lt := Nat.lt_trans hgrown (by decide)
        wEst_le := hcur.wEst_le.imp_right Nat.le_add_right_of_le
        fresh := fun _ => hcur.fresh (Or.inl hslow)
        unlimited := fun hcollapsed _ => hcur.unlimited hcollapsed hslow
        epoch := fun hcollapsed hreached => ?_ }, hgrown⟩
      have hlimit := hcur.unlimited hcollapsed hslow
      rw [hlimit, uint64Max] at hreached
      have hreached : 18446744073709551615 ≤ c.stat.cwnd + bytes := hreached
      omega

/-- A HyStart++ exit begins an epoch. -/
theorem Inv.exitSlowStart (h : Inv max c) (hcwnd : c.stat.cwnd < 2 ^ 48)
    (hfresh : c.cc.current.appLimitedStartTs = uint64Max ∧ c.cc.current.appLimitedDuration = 0) :
    Inv max (c.exitSlowStart c.now) := by
  have hcur := h.current
  obtain ⟨hstart, hduration⟩ := hfresh
  have hclock : CubicVars.Clocked { c.cc.current with
      epochStart := c.now, wMax := c.stat.cwnd, cwndPrior := c.stat.cwnd, wEst := c.stat.cwnd, collapsed := false } c.now := by
    rw [CubicVars.Clocked, if_pos hstart, hduration]
    exact Nat.le_refl _
  exact h.withEpoch.withWindow { c.stat with ssthresh := c.stat.cwnd } rfl rfl
    { two_le := hcur.two_le
      two_le_ssthresh := hcur.two_le
      cwnd_lt := hcur.cwnd_lt
      wMax_lt := hcwnd
      wEst_le := Or.inr (Nat.le_refl _)
      pending_lt := hcur.pending_lt
      pendingEst_lt := hcur.pendingEst_lt
      collapsed := fun hfalse => nomatch hfalse
      fresh := fun _ => ⟨hstart, hduration⟩
      unlimited := fun _ hlt => absurd hlt (Nat.lt_irrefl _)
      epoch := fun _ _ => ⟨List.mem_cons_self, Nat.le_refl _, hclock⟩ }

theorem Inv.slowStart (h : Inv max c) (hmax : Sized max) {ack : CcAck} (hslow : c.stat.cwnd < c.stat.ssthresh)
    (hcwnd : c.stat.cwnd < 2 ^ 30) (hbytes : ack.bytesDelivered < 2 ^ 47) (isAppLimited roundStart : Bool) :
    ∃ c', c.slowStart ack c.now isAppLimited roundStart = .ok c' ∧ Inv max c' := by
  obtain ⟨stat, hgrow, hinv, hlt⟩ := h.growSlowStart hmax hslow hcwnd hbytes isAppLimited
  have hfresh := h.current.fresh (Or.inl hslow)
  rw [Conn.slowStart, hgrow, ok_bind]
  refine ⟨_, rfl, ?_⟩
  obtain ⟨hs, hsample⟩ := sampleRtt_eq { c with stat := stat } roundStart ack.rtt
  rw [hsample]
  have hsampled := hinv.withHs hs
  rcases hystart_cases { c with cc.hs := hs, stat := stat } c.now with hexit | ⟨hs', hkeep⟩
  · rw [hexit]
    exact hsampled.exitSlowStart hlt hfresh
  · rw [hkeep]
    exact hsampled.withHs hs'

/-- The time since the epoch is the real one. -/
theorem Inv.elapsed (h : Inv max c) (hcollapsed : c.cc.current.collapsed = false) (havoids : c.stat.ssthresh ≤ c.stat.cwnd)
    {later : Nat} (hlater : later < 2 ^ 45) :
    (c.cc.current.resume c.now).appLimitedDuration ≤ c.now ∧
      c.cc.current.epochStart + (c.cc.current.resume c.now).elapsed
        (add64 (sub64 c.now (c.cc.current.resume c.now).appLimitedDuration) later) +
          (c.cc.current.resume c.now).appLimitedDuration = c.now + later ∧
      c.cc.current.epochStart ∈ c.epochs ∧ c.start ≤ c.cc.current.epochStart := by
  obtain ⟨hmem, -, hclock⟩ := h.current.epoch hcollapsed havoids
  obtain ⟨-, hepoch, hle⟩ := hclock.resume h.now_lt.2
  have hstart := (h.epochs _ hmem).1
  have hnow := h.now_lt
  have hmax : uint64Max = 2 ^ 64 - 1 := rfl
  rw [CubicVars.elapsed, hepoch]
  simp only [add64, sub64]
  refine ⟨by omega, ?_, hmem, hstart⟩
  omega

theorem add64_zero (a b : Nat) : add64 (sub64 a b) 0 = sub64 a b := by
  rw [add64, Nat.add_zero, sub64, Nat.mod_mod]

/-- In congestion avoidance the window stays above the threshold, since the estimate does. -/
theorem Inv.avoidCongestion (h : Inv max c) (hmax : Sized max) {ack : CcAck} (hcollapsed : c.cc.current.collapsed = false)
    (havoids : c.stat.ssthresh ≤ c.stat.cwnd) (hcwnd : c.stat.cwnd < 2 ^ 30) (hbytes : ack.bytesDelivered < 2 ^ 47)
    (isAppLimited : Bool) : ∃ c', c.avoidCongestion ack c.now isAppLimited = .ok c' ∧ Inv max c' := by
  have hcur := h.current
  cases isAppLimited with
  | true =>
      rw [Conn.avoidCongestion, if_pos rfl]
      refine ⟨_, rfl, ?_⟩
      split
      · exact h.withWindow c.stat rfl rfl (hcur.limited h.now_lt.2 hcollapsed havoids ‹_›)
      · exact h
  | false =>
      have hresumed := hcur.resume h.now_lt.2 hcollapsed havoids
      have hlow := hresumed.two_le
      have hlowest := hresumed.two_le_ssthresh
      have hsize := hmax.le
      have hnow := h.now_lt
      obtain ⟨-, htime, -, hstart⟩ := h.elapsed hcollapsed havoids (show 0 < 2 ^ 45 by decide)
      obtain ⟨-, htimeNext, -, -⟩ := h.elapsed hcollapsed havoids h.smoothedRtt_lt
      have hcollapsed' : (c.cc.current.resume c.now).collapsed = false := by
        rw [resume_collapsed]
        exact hcollapsed
      rw [add64_zero] at htime
      rw [Conn.avoidCongestion, if_neg Bool.false_ne_true, h.size]
      dsimp only
      generalize c.cc.current.resume c.now = v at hresumed htime htimeNext hcollapsed' ⊢
      have hrtt := h.smoothedRtt_lt
      have helapsed : v.elapsed (sub64 c.now v.appLimitedDuration) < 2 ^ 46 := by omega
      have helapsedNext : v.elapsed (add64 (sub64 c.now v.appLimitedDuration) c.stat.smoothedRtt) < 2 ^ 46 := by omega
      obtain ⟨wCubic, hwCubic, hwCubic_le⟩ := computeWCubic_ok hmax helapsed
      obtain ⟨wNext, hwNext, hwNext_le⟩ := computeWCubic_ok hmax helapsedNext
      have hwMax := hresumed.wMax_lt
      obtain ⟨target, htarget, hle, htwice⟩ := target_ok hcwnd (show wNext < 2 ^ 60 by omega)
      obtain ⟨pendingEst, wEst, hgrow, hpendingEst, hest, hest_le⟩ :=
        growEst_ok hmax hlow hcwnd hbytes hresumed.pendingEst_lt
      obtain ⟨-, hthreshold, -⟩ := hresumed.epoch hcollapsed' havoids
      have hwEst := hresumed.wEst_le
      rw [hwCubic, ok_bind, hwNext, ok_bind, htarget, ok_bind, hgrow, ok_bind]
      by_cases hless : wCubic < wEst
      · rw [if_pos hless]
        obtain ⟨interval, quantum, hrate⟩ := setPacingRate_ok (s := { c.stat with cwnd := wEst }) (by dsimp only; omega) hrtt
        rw [hrate, ok_bind]
        exact ⟨_, rfl, h.withWindow _ rfl rfl (hresumed.grown hcollapsed' havoids (by dsimp only; omega) (by dsimp only; omega)
          hresumed.pending_lt (Nat.lt_trans hpendingEst hcwnd) hest (Or.inr (Nat.le_refl _)))⟩
      · rw [if_neg hless]
        obtain ⟨pending, m, hwindow, hpending, hm⟩ := growWindow_ok hmax
          (v := { v with pendingEstBytesAcked := pendingEst, wEst := wEst }) hlow hcwnd htwice hresumed.pending_lt
        rw [hwindow, ok_bind]
        obtain ⟨interval, quantum, hrate⟩ :=
          setPacingRate_ok (s := { c.stat with cwnd := c.stat.cwnd + m }) (by dsimp only; omega) hrtt
        dsimp only
        rw [hrate, ok_bind]
        exact ⟨_, rfl, h.withWindow _ rfl rfl (hresumed.grown hcollapsed' havoids (by dsimp only; omega) (by dsimp only; omega)
          (Nat.lt_trans hpending hcwnd) (Nat.lt_trans hpendingEst hcwnd) hest (Or.inl (by omega)))⟩

end Conn

end Zngtcp2.Cubic
