import Zngtcp2.Buf
import Zngtcp2.Lib.Run

namespace Zngtcp2

structure Ratelim where
  burst : Nat
  rate : Nat
  tokens : Nat
  carry : Nat
  ts : Nat

namespace Ratelim

def seconds : Nat := 1000000000

def update (rlim : Ratelim) (ts : Nat) : Except Fault Ratelim :=
  if ts < rlim.ts then .error .assertion
  else if ts = rlim.ts then .ok rlim
  else
    let d := ts - rlim.ts
    let gain := if rlim.rate > (uint64Max - rlim.carry) / d then uint64Max else rlim.rate * d + rlim.carry
    let gps := gain / seconds
    if gps < rlim.burst ∧ rlim.tokens < rlim.burst - gps then
      .ok { rlim with ts := ts, tokens := rlim.tokens + gps, carry := gain % seconds }
    else .ok { rlim with ts := ts, tokens := rlim.burst, carry := 0 }

/-- The updated limiter, and whether the tokens were there. -/
def drain (rlim : Ratelim) (n ts : Nat) : Except Fault (Bool × Ratelim) :=
  match rlim.update ts with
  | .error f => .error f
  | .ok rlim =>
      if rlim.tokens < n then .ok (false, rlim)
      else .ok (true, { rlim with tokens := rlim.tokens - n })

/-- A drain of `n` at `ts` neither asserts nor finds the limiter exhausted. -/
def CanDrain (rlim : Ratelim) (n ts : Nat) : Prop :=
  ∃ rlim', rlim.drain n ts = .ok (true, rlim')

end Ratelim

end Zngtcp2

namespace Zngtcp2.Ratelim

/-- What stops the limiter: its assertion, or a 64-bit operation that wraps around. -/
inductive Stop
  | fault (f : Fault)
  | wrap
  deriving DecidableEq, Repr

def add64 (a b : Nat) : Except Stop Nat :=
  if a + b ≤ uint64Max then .ok (a + b) else .error .wrap

def sub64 (a b : Nat) : Except Stop Nat :=
  if b ≤ a then .ok (a - b) else .error .wrap

def mul64 (a b : Nat) : Except Stop Nat :=
  if a * b ≤ uint64Max then .ok (a * b) else .error .wrap

/-- `ngtcp2_ratelim_init` -/
def init (burst rate ts : Nat) : Ratelim :=
  ⟨burst, rate, burst, 0, ts⟩

def gain64 (rlim : Ratelim) (d : Nat) : Except Stop Nat := do
  let room ← sub64 uint64Max rlim.carry
  if rlim.rate > room / d then .ok uint64Max
  else do
    let product ← mul64 rlim.rate d
    add64 product rlim.carry

/-- `ratelim_update`, with every operation on 64-bit words. -/
def update64 (rlim : Ratelim) (ts : Nat) : Except Stop Ratelim :=
  if ts < rlim.ts then .error (.fault .assertion)
  else if ts = rlim.ts then .ok rlim
  else do
    let d ← sub64 ts rlim.ts
    let gain ← rlim.gain64 d
    let gps := gain / seconds
    if gps < rlim.burst then do
      let room ← sub64 rlim.burst gps
      if rlim.tokens < room then do
        let tokens ← add64 rlim.tokens gps
        .ok { rlim with ts := ts, tokens := tokens, carry := gain % seconds }
      else .ok { rlim with ts := ts, tokens := rlim.burst, carry := 0 }
    else .ok { rlim with ts := ts, tokens := rlim.burst, carry := 0 }

/-- `ngtcp2_ratelim_drain` -/
def drain64 (rlim : Ratelim) (n ts : Nat) : Except Stop (Bool × Ratelim) := do
  let rlim ← rlim.update64 ts
  if rlim.tokens < n then .ok (false, rlim)
  else do
    let tokens ← sub64 rlim.tokens n
    .ok (true, { rlim with tokens := tokens })

/-- The tokens and the fraction of the next one. -/
def value (rlim : Ratelim) : Nat :=
  rlim.tokens * seconds + rlim.carry

/-- The bucket is never fuller than its capacity, and the fraction is less than a token. -/
structure Wf (rlim : Ratelim) : Prop where
  burst_le : rlim.burst ≤ uint64Max
  carry_lt : rlim.carry < seconds
  value_le : rlim.value ≤ rlim.burst * seconds

theorem Wf.tokens_le {rlim : Ratelim} (h : rlim.Wf) : rlim.tokens ≤ rlim.burst := by
  have hle := h.value_le
  rw [value] at hle
  exact Nat.le_of_mul_le_mul_right (Nat.le_of_add_right_le hle) (by decide)

theorem init_wf {burst : Nat} (h : burst ≤ uint64Max) (rate ts : Nat) : (init burst rate ts).Wf :=
  ⟨h, by simp [init, seconds], by simp [init, value]⟩

section Update

variable {rlim : Ratelim}

/-- What the time brings, as a 64-bit word. -/
def gain (rlim : Ratelim) (d : Nat) : Nat :=
  if rlim.rate > (uint64Max - rlim.carry) / d then uint64Max else rlim.rate * d + rlim.carry

theorem gain64_eq (h : rlim.Wf) {d : Nat} (hd : 0 < d) : rlim.gain64 d = .ok (rlim.gain d) := by
  have hcarry := h.carry_lt
  have hroom : rlim.carry ≤ uint64Max := by
    simp only [seconds, uint64Max] at hcarry ⊢
    omega
  simp only [gain64, gain, sub64, if_pos hroom, bind, Except.bind]
  by_cases hrate : rlim.rate > (uint64Max - rlim.carry) / d
  · rw [if_pos hrate, if_pos hrate]
  · rw [if_neg hrate, if_neg hrate]
    have hle := (Nat.le_div_iff_mul_le hd).mp (Nat.not_lt.mp hrate)
    simp only [mul64, if_pos (Nat.le_trans hle (Nat.sub_le _ _)), add64]
    rw [if_pos (by omega)]

/-- The word is exact, unless it is the largest one; it is never too large. -/
theorem gain_spec (h : rlim.Wf) {d : Nat} (hd : 0 < d) :
    rlim.gain d ≤ rlim.rate * d + rlim.carry ∧
      (rlim.rate * d + seconds < 2 ^ 64 → rlim.gain d = rlim.rate * d + rlim.carry) := by
  have hcarry := h.carry_lt
  rw [gain]
  by_cases hrate : rlim.rate > (uint64Max - rlim.carry) / d
  · rw [if_pos hrate]
    have hlt := (Nat.div_lt_iff_lt_mul hd).mp hrate
    constructor
    · omega
    · intro hsmall
      simp only [seconds, uint64Max] at hcarry hlt hsmall
      omega
  · rw [if_neg hrate]
    exact ⟨Nat.le_refl _, fun _ => rfl⟩

/-- No operation of the update wraps around. -/
theorem update64_eq (h : rlim.Wf) (ts : Nat) : rlim.update64 ts = (rlim.update ts).mapError .fault := by
  rw [update64, update]
  by_cases hlt : ts < rlim.ts
  · rw [if_pos hlt, if_pos hlt]
    rfl
  rw [if_neg hlt, if_neg hlt]
  by_cases heq : ts = rlim.ts
  · rw [if_pos heq, if_pos heq]
    rfl
  rw [if_neg heq, if_neg heq]
  have hgain := gain64_eq h (d := ts - rlim.ts) (by omega)
  have hburst := h.burst_le
  simp only [sub64, if_pos (Nat.not_lt.mp hlt), hgain, bind, Except.bind]
  rw [← gain]
  by_cases hgps : rlim.gain (ts - rlim.ts) / seconds < rlim.burst
  · rw [if_pos hgps, if_pos (Nat.le_of_lt hgps)]
    by_cases hroom : rlim.tokens < rlim.burst - rlim.gain (ts - rlim.ts) / seconds
    · simp only [hgps, hroom, and_self, if_true, add64]
      rw [if_pos (by omega)]
      rfl
    · simp only [hgps, hroom, and_false, if_false]
      rfl
  · simp only [hgps, false_and, if_false]
    rfl

theorem drain64_eq (h : rlim.Wf) (n ts : Nat) : rlim.drain64 n ts = (rlim.drain n ts).mapError .fault := by
  rw [drain64, drain, update64_eq h]
  cases rlim.update ts with
  | error f => rfl
  | ok rlim' =>
      simp only [Except.mapError, bind, Except.bind]
      by_cases hn : rlim'.tokens < n
      · rw [if_pos hn, if_pos hn]
      · rw [if_neg hn, if_neg hn]
        simp only [sub64, if_pos (Nat.not_lt.mp hn)]

end Update

end Zngtcp2.Ratelim
