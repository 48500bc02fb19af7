import Mathlib.Algebra.Order.Group.Nat
import Mathlib.Algebra.BigOperators.Group.List.Basic
import Zngtcp2.Ratelim.Model

namespace Zngtcp2.Ratelim

open Lib.Run

/-- A call of `ngtcp2_ratelim_drain`; one that polls drains no token. -/
inductive Call
  | drain (n ts : Nat)
  | poll (ts : Nat)
  deriving DecidableEq, Repr

def Call.ts : Call → Nat
  | .drain _ ts => ts
  | .poll ts => ts

def Call.isDrain : Call → Bool
  | .drain _ _ => true
  | .poll _ => false

structure Drain where
  n : Nat
  ts : Nat
  drained : Bool
  deriving DecidableEq, Repr

/-- The limiter, and the drains so far, polls left out. -/
structure State where
  rlim : Ratelim
  log : List Drain

def start (burst rate t₀ : Nat) : State :=
  ⟨init burst rate t₀, []⟩

def step (s : State) : Call → Except Stop State
  | .drain n ts => do
      let (drained, rlim) ← s.rlim.drain64 n ts
      .ok ⟨rlim, s.log ++ [⟨n, ts, drained⟩]⟩
  | .poll ts => do
      let (_, rlim) ← s.rlim.drain64 0 ts
      .ok ⟨rlim, s.log⟩

/-- The tokens of a drain, if it got them. -/
def Drain.tokens (d : Drain) : Nat :=
  if d.drained then d.n else 0

def drainedUntil (t : Nat) (log : List Drain) : Nat :=
  ((log.filter (·.ts ≤ t)).map Drain.tokens).sum

theorem drainedUntil_append (t : Nat) (log : List Drain) (d : Drain) :
    drainedUntil t (log ++ [d]) = drainedUntil t log + if d.ts ≤ t then d.tokens else 0 := by
  rw [drainedUntil, drainedUntil, List.filter_append, List.map_append, List.sum_append]
  by_cases h : d.ts ≤ t <;> simp [h]

section Value

variable {rlim : Ratelim} {ts : Nat}

/-- The limiter `rlim'` is `rlim` at a later time, filled by no more than the time brings. -/
structure Later (rlim : Ratelim) (ts : Nat) (rlim' : Ratelim) : Prop where
  wf : rlim'.Wf
  ts_eq : rlim'.ts = ts
  burst_eq : rlim'.burst = rlim.burst
  rate_eq : rlim'.rate = rlim.rate
  value_le : rlim'.value ≤ rlim.value + rlim.rate * (ts - rlim.ts)
  value_eq : rlim.rate * (ts - rlim.ts) + seconds < 2 ^ 64 →
    rlim'.value = min (rlim.value + rlim.rate * (ts - rlim.ts)) (rlim.burst * seconds)

theorem update_later (h : rlim.Wf) (hts : rlim.ts ≤ ts) : ∃ rlim', rlim.update ts = .ok rlim' ∧ Later rlim ts rlim' := by
  have hcap := h.value_le
  rw [update, if_neg (Nat.not_lt.mpr hts)]
  by_cases heq : ts = rlim.ts
  · rw [if_pos heq]
    refine ⟨rlim, rfl, h, heq.symm, rfl, rfl, Nat.le_add_right _ _, fun _ => ?_⟩
    rw [heq, Nat.sub_self, Nat.mul_zero, Nat.add_zero, Nat.min_eq_left hcap]
  rw [if_neg heq]
  obtain ⟨hle, hexact⟩ := gain_spec h (d := ts - rlim.ts) (by omega)
  simp only
  rw [← gain]
  generalize rlim.gain (ts - rlim.ts) = gain at hle hexact ⊢
  have hdiv : gain / seconds * seconds + gain % seconds = gain := Nat.div_add_mod' gain seconds
  have hvalue : rlim.value = rlim.tokens * seconds + rlim.carry := rfl
  split
  · rename_i hroom
    obtain ⟨hgps, hless⟩ := hroom
    have hnew : value { rlim with ts := ts, tokens := rlim.tokens + gain / seconds, carry := gain % seconds } =
        rlim.tokens * seconds + gain := by
      simp only [value, Nat.add_mul]
      omega
    have hfits : rlim.tokens * seconds + gain ≤ rlim.burst * seconds := by
      have hsucc : (rlim.tokens + gain / seconds + 1) * seconds ≤ rlim.burst * seconds :=
        Nat.mul_le_mul_right seconds (by omega)
      have hmod : gain % seconds < seconds := Nat.mod_lt _ (by decide)
      rw [Nat.add_mul, Nat.add_mul, Nat.one_mul] at hsucc
      omega
    refine ⟨_, rfl, ⟨h.burst_le, Nat.mod_lt _ (by decide), ?_⟩, rfl, rfl, rfl, ?_, fun hsmall => ?_⟩
    · rw [hnew]
      exact hfits
    · rw [hnew]
      omega
    · have hgain := hexact hsmall
      rw [hnew, Nat.min_eq_left (by omega)]
      omega
  · rename_i hroom
    have hover : rlim.burst ≤ rlim.tokens + gain / seconds := by
      by_contra hlt
      exact hroom ⟨by omega, by omega⟩
    have hfull : rlim.burst * seconds ≤ rlim.tokens * seconds + gain := by
      have := Nat.mul_le_mul_right seconds hover
      rw [Nat.add_mul] at this
      omega
    have hnew : value { rlim with ts := ts, tokens := rlim.burst, carry := 0 } = rlim.burst * seconds := Nat.add_zero _
    refine ⟨_, rfl, ⟨h.burst_le, by simp [seconds], Nat.le_of_eq hnew⟩, rfl, rfl, rfl, ?_, fun hsmall => ?_⟩
    · rw [hnew]
      omega
    · have hgain := hexact hsmall
      rw [hnew, Nat.min_eq_right (by omega)]

theorem Wf.value_div (h : rlim.Wf) : rlim.value / seconds = rlim.tokens := by
  rw [value, Nat.mul_comm, Nat.mul_add_div (by decide), Nat.div_eq_of_lt h.carry_lt, Nat.add_zero]

theorem Wf.value_mod (h : rlim.Wf) : rlim.value % seconds = rlim.carry := by
  rw [value, Nat.mul_add_mod_self_right, Nat.mod_eq_of_lt h.carry_lt]

/-- The value determines the tokens and the fraction. -/
theorem Wf.ext {rlim rlim' : Ratelim} (h : rlim.Wf) (h' : rlim'.Wf) (hvalue : rlim.value = rlim'.value)
    (hts : rlim.ts = rlim'.ts) (hburst : rlim.burst = rlim'.burst) (hrate : rlim.rate = rlim'.rate) : rlim = rlim' := by
  have htokens : rlim.tokens = rlim'.tokens := by rw [← h.value_div, ← h'.value_div, hvalue]
  have hcarry : rlim.carry = rlim'.carry := by rw [← h.value_mod, ← h'.value_mod, hvalue]
  cases rlim
  cases rlim'
  simp only [mk.injEq]
  exact ⟨hburst, hrate, htokens, hcarry, hts⟩

theorem min_min_add (v a b c : Nat) : min (min (v + a) c + b) c = min (v + (a + b)) c := by
  omega

/-- A poll in between makes no difference. -/
theorem Later.trans {rlim₁ rlim₂ rlim₂' : Ratelim} {ts₁ ts₂ : Nat} (h₁ : Later rlim ts₁ rlim₁)
    (h₂ : Later rlim₁ ts₂ rlim₂) (h₂' : Later rlim ts₂ rlim₂') (hts₁ : rlim.ts ≤ ts₁) (hts₂ : ts₁ ≤ ts₂)
    (hsmall : rlim.rate * (ts₂ - rlim.ts) + seconds < 2 ^ 64) : rlim₂ = rlim₂' := by
  have hsplit : rlim.rate * (ts₂ - rlim.ts) = rlim.rate * (ts₁ - rlim.ts) + rlim.rate * (ts₂ - ts₁) := by
    rw [← Nat.mul_add]
    congr 1
    omega
  have hvalue₁ := h₁.value_eq (by omega)
  have hvalue₂ := h₂.value_eq (by rw [h₁.rate_eq, h₁.ts_eq]; omega)
  have hvalue₂' := h₂'.value_eq hsmall
  rw [h₁.rate_eq, h₁.ts_eq, h₁.burst_eq] at hvalue₂
  apply Wf.ext h₂.wf h₂'.wf
  · rw [hvalue₂, hvalue₂', hvalue₁, hsplit]
    exact min_min_add _ _ _ _
  · rw [h₂.ts_eq, h₂'.ts_eq]
  · rw [h₂.burst_eq, h₁.burst_eq, h₂'.burst_eq]
  · rw [h₂.rate_eq, h₁.rate_eq, h₂'.rate_eq]

/-- What is left when `n` tokens were asked for. -/
def take (rlim : Ratelim) (n : Nat) : Ratelim :=
  if n ≤ rlim.tokens then { rlim with tokens := rlim.tokens - n } else rlim

theorem drain64_later (h : rlim.Wf) (hts : rlim.ts ≤ ts) (n : Nat) :
    ∃ rlim', Later rlim ts rlim' ∧ rlim.drain64 n ts = .ok (decide (n ≤ rlim'.tokens), rlim'.take n) := by
  obtain ⟨rlim', hupdate, hlater⟩ := update_later h hts
  refine ⟨rlim', hlater, ?_⟩
  rw [drain64_eq h, drain, hupdate, take]
  by_cases hn : rlim'.tokens < n
  · simp only [if_pos hn, Nat.not_le.mpr hn, if_false, decide_false]
    rfl
  · simp only [if_neg hn, Nat.not_lt.mp hn, if_true, decide_true]
    rfl

theorem take_value (rlim : Ratelim) (n : Nat) :
    (rlim.take n).value + (if n ≤ rlim.tokens then n else 0) * seconds = rlim.value := by
  rw [take]
  split
  · rename_i hn
    simp only [value, Nat.sub_mul]
    have := Nat.mul_le_mul_right seconds hn
    omega
  · simp

theorem take_zero (rlim : Ratelim) : rlim.take 0 = rlim := by
  rw [take, if_pos (Nat.zero_le _)]
  rfl

theorem take_wf (h : rlim.Wf) (n : Nat) : (rlim.take n).Wf ∧ (rlim.take n).ts = rlim.ts ∧ (rlim.take n).burst = rlim.burst ∧
    (rlim.take n).rate = rlim.rate := by
  have hvalue := take_value rlim n
  rw [take] at hvalue ⊢
  split at hvalue
  · rename_i hn
    rw [if_pos hn]
    exact ⟨⟨h.burst_le, h.carry_lt, by have := h.value_le; simp only; omega⟩, rfl, rfl, rfl⟩
  · rename_i hn
    rw [if_neg hn]
    exact ⟨h, rfl, rfl, rfl⟩

theorem Later.refl (h : rlim.Wf) : Later rlim rlim.ts rlim := by
  have hcap := h.value_le
  refine ⟨h, rfl, rfl, rfl, Nat.le_add_right _ _, fun _ => ?_⟩
  rw [Nat.sub_self, Nat.mul_zero, Nat.add_zero, Nat.min_eq_left hcap]

end Value

namespace Call

def n : Call → Nat
  | .drain n _ => n
  | .poll _ => 0

def record (drained : Bool) : Call → List Drain
  | .drain n ts => [⟨n, ts, drained⟩]
  | .poll _ => []

theorem record_tokens (c : Call) (drained : Bool) :
    ((c.record drained).map Drain.tokens).sum = if drained then c.n else 0 := by
  cases c with
  | drain n ts => simp [record, Drain.tokens, Call.n]
  | poll ts => simp [record, Call.n]

theorem record_ts {c : Call} {drained : Bool} {d : Drain} (hd : d ∈ c.record drained) : d.ts = c.ts := by
  cases c with
  | drain n ts =>
      rw [List.mem_singleton.mp hd]
      rfl
  | poll ts => cases hd

theorem filter_record {c : Call} {drained : Bool} {t : Nat} (ht : t < c.ts) :
    (c.record drained).filter (·.ts ≤ t) = [] := by
  rw [List.filter_eq_nil_iff]
  intro d hd
  simpa [record_ts hd] using ht

end Call

theorem step_later {s : State} {c : Call} (h : s.rlim.Wf) (hts : s.rlim.ts ≤ c.ts) :
    ∃ rlim', Later s.rlim c.ts rlim' ∧
      step s c = .ok ⟨rlim'.take c.n, s.log ++ c.record (decide (c.n ≤ rlim'.tokens))⟩ := by
  obtain ⟨rlim', hlater, hdrain⟩ := drain64_later h hts c.n
  refine ⟨rlim', hlater, ?_⟩
  cases c with
  | drain n ts =>
      simp only [Call.n, Call.ts] at hdrain
      simp only [step, hdrain, bind, Except.bind, Call.n, Call.record]
  | poll ts =>
      simp only [Call.n, Call.ts] at hdrain
      simp only [step, hdrain, bind, Except.bind, Call.n, Call.record, List.append_nil]

/-- A call that returns is not earlier than the one before it. -/
theorem le_ts_of_step {s s' : State} {c : Call} (h : step s c = .ok s') : s.rlim.ts ≤ c.ts := by
  by_contra hlt
  have hupdate : s.rlim.update64 c.ts = .error (.fault .assertion) := if_pos (Nat.not_le.mp hlt)
  cases c with
  | drain n ts =>
      simp only [Call.ts] at hupdate
      simp only [step, drain64, hupdate, bind, Except.bind] at h
      cases h
  | poll ts =>
      simp only [Call.ts] at hupdate
      simp only [step, drain64, hupdate, bind, Except.bind] at h
      cases h

section Bound

variable {burst rate t₀ : Nat}

def drained (log : List Drain) : Nat :=
  (log.map Drain.tokens).sum

theorem drainedUntil_le (t : Nat) (log : List Drain) : drainedUntil t log ≤ drained log := by
  induction log with
  | nil => exact Nat.le_refl _
  | cons d log ih =>
      simp only [drainedUntil, drained] at ih ⊢
      by_cases hd : d.ts ≤ t
      · rw [List.filter_cons_of_pos (by simpa using hd)]
        simp only [List.map_cons, List.sum_cons]
        omega
      · rw [List.filter_cons_of_neg (by simpa using hd)]
        simp only [List.map_cons, List.sum_cons]
        omega

/-- The drained tokens and those in the bucket are what the bucket had and what the time brought. -/
structure Bounded (burst rate t₀ : Nat) (s : State) : Prop where
  wf : s.rlim.Wf
  ts_ge : t₀ ≤ s.rlim.ts
  burst_eq : s.rlim.burst = burst
  rate_eq : s.rlim.rate = rate
  total : drained s.log * seconds + s.rlim.value ≤ burst * seconds + rate * (s.rlim.ts - t₀)
  earlier : ∀ t, t₀ ≤ t → t < s.rlim.ts → drainedUntil t s.log * seconds ≤ burst * seconds + rate * (t - t₀)

theorem start_bounded (hburst : burst ≤ uint64Max) : Bounded burst rate t₀ (start burst rate t₀) := by
  refine ⟨init_wf hburst rate t₀, Nat.le_refl _, rfl, rfl, ?_, fun t hle hlt => absurd hlt (Nat.not_lt.mpr hle)⟩
  simp [start, init, value, drained]

theorem Bounded.until {s : State} (h : Bounded burst rate t₀ s) {t : Nat} (ht : t₀ ≤ t) :
    drainedUntil t s.log * seconds ≤ burst * seconds + rate * (t - t₀) := by
  by_cases hlt : t < s.rlim.ts
  · exact h.earlier t ht hlt
  · have hsum := Nat.mul_le_mul_right seconds (drainedUntil_le t s.log)
    have htime : rate * (s.rlim.ts - t₀) ≤ rate * (t - t₀) := Nat.mul_le_mul_left rate (by omega)
    have := h.total
    omega

theorem step_bounded (s : State) (c : Call) (h : Bounded burst rate t₀ s) (hts : s.rlim.ts ≤ c.ts) :
    ∃ s', step s c = .ok s' ∧ Bounded burst rate t₀ s' := by
  obtain ⟨rlim', hlater, hstep⟩ := step_later h.wf hts
  obtain ⟨hwf, hts', hburst, hrate⟩ := take_wf hlater.wf c.n
  refine ⟨_, hstep, hwf, ?_, ?_, ?_, ?_, ?_⟩
  · simp only [hts', hlater.ts_eq]
    exact Nat.le_trans h.ts_ge hts
  · simp only [hburst, hlater.burst_eq, h.burst_eq]
  · simp only [hrate, hlater.rate_eq, h.rate_eq]
  · have hsum : drained (s.log ++ c.record (decide (c.n ≤ rlim'.tokens))) =
        drained s.log + if c.n ≤ rlim'.tokens then c.n else 0 := by
      simp only [drained, List.map_append, List.sum_append, Call.record_tokens, decide_eq_true_eq]
    have htime : rate * (c.ts - t₀) = rate * (s.rlim.ts - t₀) + rate * (c.ts - s.rlim.ts) := by
      have := h.ts_ge
      rw [← Nat.mul_add]
      congr 1
      omega
    have hvalue := take_value rlim' c.n
    have hle := hlater.value_le
    have htotal := h.total
    rw [h.rate_eq] at hle
    simp only [hsum, hts', hlater.ts_eq, Nat.add_mul]
    omega
  · intro t ht hlt
    have hold : drainedUntil t (s.log ++ c.record (decide (c.n ≤ rlim'.tokens))) = drainedUntil t s.log := by
      simp only [hts', hlater.ts_eq] at hlt
      rw [drainedUntil, List.filter_append, Call.filter_record hlt, List.append_nil, drainedUntil]
    rw [hold]
    exact h.until ht

end Bound

section Polls

variable {rate t₀ t : Nat}

/-- The run `s'` without the polls of the run `s`: the drains up to `t` have gone the same way, and up to
that time the limiters differ only by the time that has passed since the last drain. -/
structure Unpolled (rate t₀ t : Nat) (s s' : State) : Prop where
  wf : s.rlim.Wf
  wf' : s'.rlim.Wf
  ts_ge : t₀ ≤ s'.rlim.ts
  ts_le : s'.rlim.ts ≤ s.rlim.ts
  rate_eq : s'.rlim.rate = rate
  log_eq : s.log.filter (·.ts ≤ t) = s'.log.filter (·.ts ≤ t)
  later : s.rlim.ts ≤ t → Later s'.rlim s.rlim.ts s.rlim

theorem start_unpolled {burst : Nat} (hburst : burst ≤ uint64Max) :
    Unpolled rate t₀ t (start burst rate t₀) (start burst rate t₀) := by
  have hwf := init_wf hburst rate t₀
  exact ⟨hwf, hwf, Nat.le_refl _, Nat.le_refl _, rfl, rfl, fun _ => Later.refl hwf⟩

/-- Both limiters are at the time of the next call the same one. -/
theorem Unpolled.next {s s' : State} (h : Unpolled rate t₀ t s s') (hsmall : rate * (t - t₀) + seconds < 2 ^ 64)
    {ts : Nat} {rlim rlim' : Ratelim} (hlater : Later s.rlim ts rlim) (hlater' : Later s'.rlim ts rlim')
    (hle : s.rlim.ts ≤ ts) (ht : ts ≤ t) : rlim = rlim' := by
  apply (h.later (Nat.le_trans hle ht)).trans hlater hlater' h.ts_le hle
  have htime : rate * (ts - s'.rlim.ts) ≤ rate * (t - t₀) := Nat.mul_le_mul_left rate (by have := h.ts_ge; omega)
  rw [h.rate_eq]
  omega

theorem Unpolled.drain (hsmall : rate * (t - t₀) + seconds < 2 ^ 64) (s s' : State) (c : Call) (s₁ : State)
    (h : Unpolled rate t₀ t s s') (_ : c.isDrain = true) (hstep : step s c = .ok s₁) :
    ∃ s₁', step s' c = .ok s₁' ∧ Unpolled rate t₀ t s₁ s₁' := by
  have hle := le_ts_of_step hstep
  obtain ⟨rlim, hlater, hstep₁⟩ := step_later h.wf hle
  obtain ⟨rlim', hlater', hstep'⟩ := step_later h.wf' (Nat.le_trans h.ts_le hle)
  rw [hstep₁, Except.ok.injEq] at hstep
  subst hstep
  obtain ⟨hwf, hts, -, hrate⟩ := take_wf hlater.wf c.n
  obtain ⟨hwf', hts', -, hrate'⟩ := take_wf hlater'.wf c.n
  have hlast : (rlim'.take c.n).ts = (rlim.take c.n).ts := by rw [hts, hts', hlater.ts_eq, hlater'.ts_eq]
  refine ⟨_, hstep', hwf, hwf', ?_, Nat.le_of_eq hlast, ?_, ?_, fun ht => ?_⟩
  · simp only [hts', hlater'.ts_eq]
    exact Nat.le_trans h.ts_ge (Nat.le_trans h.ts_le hle)
  · simp only [hrate', hlater'.rate_eq, h.rate_eq]
  · simp only [List.filter_append, h.log_eq]
    by_cases ht : c.ts ≤ t
    · rw [h.next hsmall hlater hlater' hle ht]
    · rw [Call.filter_record (Nat.not_le.mp ht), Call.filter_record (Nat.not_le.mp ht)]
  · simp only [hts, hlater.ts_eq] at ht
    rw [h.next hsmall hlater hlater' hle ht]
    exact Later.refl hwf'

theorem Unpolled.poll (hsmall : rate * (t - t₀) + seconds < 2 ^ 64) (s s' : State) (c : Call) (s₁ : State)
    (h : Unpolled rate t₀ t s s') (hpoll : c.isDrain = false) (hstep : step s c = .ok s₁) : Unpolled rate t₀ t s₁ s' := by
  have hle := le_ts_of_step hstep
  obtain ⟨rlim, hlater, hstep₁⟩ := step_later h.wf hle
  obtain ⟨rlim', -, hlater'⟩ := update_later h.wf' (Nat.le_trans h.ts_le hle)
  rw [hstep₁, Except.ok.injEq] at hstep
  subst hstep
  cases c with
  | drain n ts => cases hpoll
  | poll ts =>
      simp only [Call.n, Call.record, take_zero, List.append_nil]
      refine ⟨hlater.wf, h.wf', h.ts_ge, ?_, h.rate_eq, h.log_eq, fun ht => ?_⟩
      · simp only [hlater.ts_eq]
        exact Nat.le_trans h.ts_le hle
      · simp only [hlater.ts_eq] at ht ⊢
        rw [h.next hsmall hlater hlater' hle ht]
        exact hlater'

end Polls

theorem guarded_of_sorted {s : State} {calls : List Call} (hs : s.rlim.Wf)
    (hsorted : (s.rlim.ts :: calls.map Call.ts).Pairwise (· ≤ ·)) :
    Guarded step (fun s c => s.rlim.ts ≤ c.ts) s calls := by
  induction calls generalizing s with
  | nil => trivial
  | cons c calls ih =>
      obtain ⟨hfirst, hrest⟩ := List.pairwise_cons.mp hsorted
      have hle := hfirst c.ts List.mem_cons_self
      refine ⟨hle, fun s' hstep => ?_⟩
      obtain ⟨rlim', hlater, hstep'⟩ := step_later hs hle
      rw [hstep', Except.ok.injEq] at hstep
      subst hstep
      obtain ⟨hwf, hts, -⟩ := take_wf hlater.wf c.n
      apply ih hwf
      simp only [hts, hlater.ts_eq]
      exact hrest

/-- In every run no operation wraps around and the assertion holds; the drains of the run, up to any time,
got no more than the burst and what the rate yields until then; and the polls make no difference for the
drains up to any time until which the yield is a 64-bit word. -/
theorem drains_bounded (burst rate t₀ : Nat) (calls : List Call) (hburst : burst ≤ uint64Max)
    (hsorted : (t₀ :: calls.map Call.ts).Pairwise (· ≤ ·)) :
    ∃ s s', run step (start burst rate t₀) calls = .ok s ∧
      run step (start burst rate t₀) (calls.filter Call.isDrain) = .ok s' ∧
      s.rlim.tokens ≤ burst ∧ s.rlim.carry < seconds ∧
      (∀ t, t₀ ≤ t → drainedUntil t s.log ≤ burst + rate * (t - t₀) / seconds) ∧
      ∀ t, rate * (t - t₀) + seconds < 2 ^ 64 → s.log.filter (·.ts ≤ t) = s'.log.filter (·.ts ≤ t) := by
  have hstart := init_wf hburst rate t₀
  obtain ⟨s, hrun, hs⟩ := run_invariant step_bounded (start_bounded hburst)
    (guarded_of_sorted hstart hsorted)
  have hunpolled : ∀ t, rate * (t - t₀) + seconds < 2 ^ 64 → ∃ s',
      run step (start burst rate t₀) (calls.filter Call.isDrain) = .ok s' ∧ Unpolled rate t₀ t s s' :=
    fun t hsmall => run_filter (Unpolled.drain hsmall) (Unpolled.poll hsmall) (start_unpolled hburst) hrun
  obtain ⟨s', hrun', -⟩ := hunpolled t₀ (by rw [Nat.sub_self, Nat.mul_zero]; decide)
  refine ⟨s, s', hrun, hrun', ?_, hs.wf.carry_lt, fun t ht => ?_, fun t hsmall => ?_⟩
  · rw [← hs.burst_eq]
    exact hs.wf.tokens_le
  · have huntil := hs.until ht
    rw [Nat.add_comm (burst * seconds)] at huntil
    have hdiv := (Nat.le_div_iff_mul_le (by decide)).mpr huntil
    rw [Nat.add_mul_div_right _ _ (by decide)] at hdiv
    omega
  · obtain ⟨s₁, hrun₁, hs₁⟩ := hunpolled t hsmall
    rw [hrun', Except.ok.injEq] at hrun₁
    subst hrun₁
    exact hs₁.log_eq

/-- A burst of 2 and a token every 3 seconds, with a poll after the first two thirds of one. -/
theorem drains_bounded_poll :
    ∃ s s', run step (start 2 333333333 0)
        [.drain 2 1000000000, .poll 3000000000, .drain 1 3500000000, .drain 1 4000000004] = .ok s ∧
      run step (start 2 333333333 0)
        ([Call.drain 2 1000000000, .poll 3000000000, .drain 1 3500000000, .drain 1 4000000004].filter Call.isDrain) =
          .ok s' ∧
      s.rlim.tokens ≤ 2 ∧ s.rlim.carry < seconds ∧
      (∀ t, 0 ≤ t → drainedUntil t s.log ≤ 2 + 333333333 * (t - 0) / seconds) ∧
      ∀ t, 333333333 * (t - 0) + seconds < 2 ^ 64 → s.log.filter (·.ts ≤ t) = s'.log.filter (·.ts ≤ t) :=
  drains_bounded 2 333333333 0 [.drain 2 1000000000, .poll 3000000000, .drain 1 3500000000, .drain 1 4000000004]
    (by decide) (by decide)

end Zngtcp2.Ratelim
