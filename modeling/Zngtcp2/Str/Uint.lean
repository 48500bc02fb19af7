import Zngtcp2.Buf
import Zngtcp2.Lib.Memory
import Zngtcp2.Lib.Numeral
import Mathlib.Data.Nat.Log

namespace Zngtcp2.Str

open Lib.Memory Lib.Numeral

/-- `LOWER_XDIGITS` -/
def lowerXdigits : List Nat :=
  "0123456789abcdef".toList.map Char.toNat

/-- The byte of `n` that has `k` bytes below it. -/
def byteAt (n k : Nat) : Nat :=
  n >>> (k * 8) % 256

/-- The loop of `ngtcp2_encode_uint_hexlen`, with `k` bytes left. -/
def hexlenFrom (n : Nat) : Nat → Option Nat
  | 0 => none
  | k + 1 =>
    let d := byteAt n k
    if d = 0 then hexlenFrom n k
    else if d >>> 4 ≠ 0 then some ((k + 1) * 2)
    else some ((k + 1) * 2 - 1)

/-- `ngtcp2_encode_uint_hexlen` -/
def encodeUintHexlen (n : Nat) : Option Nat :=
  if n = 0 then some 1 else hexlenFrom n 8

/-- `*dest++ = LOWER_XDIGITS[d]`; nothing is returned for a read outside of the table. -/
def putXdigit (m : Mem) (dest d : Nat) : Option (Mem × Nat) := do
  let byte ← lowerXdigits[d]?
  some (store m dest byte, dest + 1)

/-- The second loop of `ngtcp2_encode_uint_hex`, with `k` bytes left. -/
def hexRest (n : Nat) : Nat → Mem → Nat → Option (Mem × Nat)
  | 0, m, dest => some (m, dest)
  | k + 1, m, dest => do
    let d := byteAt n k
    let (m, dest) ← putXdigit m dest (d >>> 4)
    let (m, dest) ← putXdigit m dest (d &&& 0xf)
    hexRest n k m dest

/-- The first loop of `ngtcp2_encode_uint_hex`, which goes on to the second one behind the first byte that is not zero. -/
def hexFirst (n : Nat) : Nat → Mem → Nat → Option (Mem × Nat)
  | 0, m, dest => some (m, dest)
  | k + 1, m, dest =>
    let d := byteAt n k
    if d = 0 then hexFirst n k m dest
    else do
      let (m, dest) ← if d >>> 4 ≠ 0 then putXdigit m dest (d >>> 4) else some (m, dest)
      let (m, dest) ← putXdigit m dest (d &&& 0xf)
      hexRest n k m dest

/-- `ngtcp2_encode_uint_hex` -/
def encodeUintHex (m : Mem) (dest n : Nat) : Option (Mem × Nat) :=
  if n = 0 then some (store m dest '0'.toNat, dest + 1) else hexFirst n 8 m dest

/-- `__builtin_clzll` -/
def countlZero (x : Nat) : Nat :=
  63 - Nat.log2 x

def len8tab : List Nat :=
  [0, 1] ++ List.replicate 2 2 ++ List.replicate 4 3 ++ List.replicate 8 4 ++ List.replicate 16 5 ++
    List.replicate 32 6 ++ List.replicate 64 7 ++ List.replicate 128 8

/-- One `if` of `countl_zero`, where the compiler has no builtin for it. -/
def halve (k : Nat) (r : Nat × Nat) : Nat × Nat :=
  if r.1 ≥ 1 <<< k then (r.1 >>> k, r.2 + k) else r

/-- `countl_zero`, where the compiler has no builtin for it. -/
def countlZeroTable (x : Nat) : Option Nat := do
  let (x, n) := halve 8 (halve 16 (halve 32 (x, 0)))
  let len ← len8tab[x]?
  some (64 - (n + len))

def countDigitTbl : List Nat :=
  [9, 99, 999, 9999, 99999, 999999, 9999999, 99999999, 999999999, 9999999999, 99999999999, 999999999999,
    9999999999999, 99999999999999, 999999999999999, 9999999999999999, 99999999999999999, 999999999999999999,
    9999999999999999999]

/-- `count_digit` -/
def countDigit (x : Nat) : Option Nat := do
  let y := (19 * (63 - countlZero (x ||| 1))) >>> 6
  let most ← countDigitTbl[y]?
  let y := y + if x > most then 1 else 0
  some (y + 1)

/-- `ngtcp2_encode_uintlen` -/
def encodeUintlen (n : Nat) : Option Nat :=
  countDigit n

/-- `uint_digits`, with ten numbers in a row. -/
def uintDigits : List Nat :=
  ["00010203040506070809", "10111213141516171819", "20212223242526272829", "30313233343536373839",
    "40414243444546474849", "50515253545556575859", "60616263646566676869", "70717273747576777879",
    "80818283848586878889", "90919293949596979899"].flatMap fun row =>
      row.toList.map Char.toNat

/-- The two digits of `n` are copied to `p`. -/
def putPair (m : Mem) (p n : Nat) : Option Mem := do
  let tens ← uintDigits[n * 2]?
  let units ← uintDigits[n * 2 + 1]?
  some (store (store m p tens) (p + 1) units)

/-- The loop of `ngtcp2_encode_uint`, which fills the memory below `p`, with what stands behind it. -/
def fillDown (m : Mem) (p n : Nat) : Option Mem :=
  if 100 ≤ n then do
    let p := p - 2
    let m ← putPair m p (n % 100)
    fillDown m p (n / 100)
  else if n < 10 then some (store m (p - 1) (('0'.toNat + n) % 256))
  else putPair m (p - 2) n
termination_by n
decreasing_by omega

/-- `ngtcp2_encode_uint` -/
def encodeUint (m : Mem) (dest n : Nat) : Option (Mem × Nat) :=
  if n < 10 then some (store m dest (('0'.toNat + n) % 256), dest + 1)
  else if n < 100 then do
    let m ← putPair m dest n
    some (m, dest + 2)
  else do
    let count ← countDigit n
    let dest := dest + count
    let m ← fillDown m dest n
    some (m, dest)

section Hex

variable {n k : Nat}

theorem putXdigit_eq (m : Mem) (dest : Nat) {d : Nat} (hd : d < 16) :
    putXdigit m dest d = wrote m dest [digit d] := by
  have htable : ∀ d < 16, lowerXdigits[d]? = some (digit d) := by decide
  simp only [putXdigit, htable d hd, Option.bind_eq_bind, Option.bind_some, store_eq]
  rfl

theorem byteAt_lt (n k : Nat) : byteAt n k < 256 :=
  Nat.mod_lt _ (by decide)

theorem byteAt_eq (n k : Nat) : byteAt n k = n / 256 ^ k % 256 := by
  rw [byteAt, Nat.shiftRight_eq_div_pow, Nat.mul_comm, Nat.pow_mul]

theorem shiftRight_four (d : Nat) : d >>> 4 = d / 16 := by
  rw [Nat.shiftRight_eq_div_pow]

theorem and_xf (d : Nat) : d &&& 0xf = d % 16 := by
  exact Nat.and_two_pow_sub_one_eq_mod d 4

/-- The digits of the lowest `k` bytes, with their zeros. -/
def lowDigits (n : Nat) : Nat → List Nat
  | 0 => []
  | k + 1 => digit (byteAt n k / 16) :: digit (byteAt n k % 16) :: lowDigits n k

theorem length_lowDigits (n k : Nat) : (lowDigits n k).length = 2 * k := by
  induction k with
  | zero => rfl
  | succ k ih =>
      simp only [lowDigits, List.length_cons, ih]
      omega

/-- A numeral is that of the bytes above the lowest `k` ones, and their digits. -/
theorem numeral_lowDigits (h : 0 < n / 256 ^ k) : numeral 16 n = numeral 16 (n / 256 ^ k) ++ lowDigits n k := by
  induction k with
  | zero => rw [Nat.pow_zero, Nat.div_one, lowDigits, List.append_nil]
  | succ k ih =>
      have hdiv : n / 256 ^ (k + 1) = n / 256 ^ k / 256 := by
        rw [Nat.pow_succ, Nat.div_div_eq_div_mul]
      rw [hdiv] at h ⊢
      have hle : 16 * 16 ≤ n / 256 ^ k := (Nat.div_pos_iff.mp h).2
      rw [ih (by omega), numeral_of_sq_le (by decide) hle, List.append_assoc, lowDigits, byteAt_eq]
      have htens : n / 256 ^ k / 16 % 16 = n / 256 ^ k % 256 / 16 := by omega
      have hunits : n / 256 ^ k % 16 = n / 256 ^ k % 256 % 16 := by omega
      rw [htens, hunits]
      rfl

theorem hexRest_eq (n k : Nat) (m : Mem) (dest : Nat) : hexRest n k m dest = wrote m dest (lowDigits n k) := by
  induction k generalizing m dest with
  | zero => exact (wrote_nil m dest).symm
  | succ k ih =>
      have hlt := byteAt_lt n k
      simp only [hexRest, shiftRight_four, and_xf, Option.bind_eq_bind]
      rw [putXdigit_eq _ _ (by omega)]
      apply wrote_bind
      intro m dest
      dsimp only
      rw [putXdigit_eq _ _ (by omega)]
      exact wrote_bind ih m dest _

theorem hexFirst_eq (hn : n ≠ 0) (hlt : n < 256 ^ k) (m : Mem) (dest : Nat) :
    hexlenFrom n k = some (numeral 16 n).length ∧ hexFirst n k m dest = wrote m dest (numeral 16 n) := by
  induction k with
  | zero => omega
  | succ k ih =>
      have hbyte : byteAt n k = n / 256 ^ k := by
        rw [byteAt_eq]
        exact Nat.mod_eq_of_lt (Nat.div_lt_of_lt_mul hlt)
      have hd := byteAt_lt n k
      simp only [hexlenFrom, hexFirst, shiftRight_four, and_xf, Option.bind_eq_bind]
      by_cases hzero : byteAt n k = 0
      · rw [if_pos hzero, if_pos hzero]
        rw [hbyte] at hzero
        exact ih ((Nat.div_eq_zero_iff_lt (Nat.pow_pos (by decide))).mp hzero)
      · rw [if_neg hzero, if_neg hzero]
        have hpos : 0 < n / 256 ^ k := by
          rw [← hbyte]
          exact Nat.pos_of_ne_zero hzero
        have hlow := numeral_lowDigits hpos
        rw [← hbyte] at hlow
        rw [hlow, List.length_append, length_lowDigits]
        by_cases hhigh : byteAt n k / 16 = 0
        · -- the first digit is the low half of its byte
          have hsmall : byteAt n k < 16 := by omega
          rw [if_neg (not_not.mpr hhigh), if_neg (not_not.mpr hhigh), numeral_of_lt hsmall, Option.bind_some]
          dsimp only
          rw [putXdigit_eq _ _ (by omega), Nat.mod_eq_of_lt hsmall]
          constructor
          · rw [List.length_singleton]
            congr 1
            omega
          · exact wrote_bind (hexRest_eq n k) m dest _
        · rw [if_pos hhigh, if_pos hhigh, numeral_of_lt_sq (by decide) (by omega) hd, putXdigit_eq _ _ (by omega)]
          constructor
          · rw [List.length_cons, List.length_singleton]
            congr 1
            omega
          · refine wrote_bind (fun m dest => ?_) m dest [_]
            dsimp only
            rw [putXdigit_eq _ _ (by omega)]
            exact wrote_bind (hexRest_eq n k) m dest _

theorem encodeUintHex_eq (hn : n < 2 ^ 64) (m : Mem) (dest : Nat) :
    encodeUintHexlen n = some (numeral 16 n).length ∧ encodeUintHex m dest n = wrote m dest (numeral 16 n) := by
  rw [encodeUintHexlen, encodeUintHex]
  by_cases hzero : n = 0
  · rw [if_pos hzero, if_pos hzero, hzero, numeral_of_lt (by decide), store_eq]
    exact ⟨rfl, rfl⟩
  · rw [if_neg hzero, if_neg hzero]
    exact hexFirst_eq hzero (by omega) m dest

end Hex

section Decimal

variable {n : Nat}

theorem or_one (x : Nat) : x ||| 1 = 2 * (x / 2) + 1 := by
  have hdiv : (x ||| 1) / 2 = x / 2 := by
    rw [Nat.or_div_two]
    exact Nat.or_zero _
  have hmod : (x ||| 1) % 2 = 1 := by
    rw [Nat.or_mod_two_eq_one]
    exact Or.inr rfl
  omega

theorem halve_spec {k : Nat} {r : Nat × Nat} (hr : r.1 ≠ 0) (hlt : r.1 < 2 ^ (k + k)) :
    (halve k r).1 ≠ 0 ∧ (halve k r).1 < 2 ^ k ∧ (halve k r).1.log2 + (halve k r).2 = r.1.log2 + r.2 := by
  rw [halve, Nat.one_shiftLeft]
  by_cases hle : 2 ^ k ≤ r.1
  · rw [if_pos hle]
    dsimp only
    rw [Nat.shiftRight_eq_div_pow]
    have hlog : k ≤ r.1.log2 := (Nat.le_log2 hr).mpr hle
    refine ⟨?_, ?_, ?_⟩
    · exact Nat.ne_of_gt (Nat.div_pos hle (Nat.pow_pos (by decide)))
    · rw [Nat.pow_add] at hlt
      exact Nat.div_lt_of_lt_mul hlt
    · rw [Nat.log2_eq_log_two, Nat.log2_eq_log_two, Nat.log_div_base_pow] at *
      omega
  · rw [if_neg hle]
    exact ⟨hr, Nat.not_le.mp hle, rfl⟩

theorem len8tab_eq : len8tab = (List.range 256).map fun v => if v = 0 then 0 else v.log2 + 1 := by
  decide +kernel

theorem getElem?_len8tab {v : Nat} (hv : v ≠ 0) (hlt : v < 2 ^ 8) : len8tab[v]? = some (v.log2 + 1) := by
  rw [len8tab_eq, List.getElem?_map, List.getElem?_range (by omega), Option.map_some, if_neg hv]

/-- The table counts the leading zeros like the builtin. -/
theorem countlZeroTable_eq {x : Nat} (hx : x ≠ 0) (hlt : x < 2 ^ 64) : countlZeroTable x = some (countlZero x) := by
  have hword : x.log2 < 64 := (Nat.log2_lt hx).mpr hlt
  obtain ⟨hx₁, hlt₁, hlog₁⟩ := halve_spec (k := 32) (r := (x, 0)) hx hlt
  obtain ⟨hx₂, hlt₂, hlog₂⟩ := halve_spec (k := 16) hx₁ hlt₁
  obtain ⟨hx₃, hlt₃, hlog₃⟩ := halve_spec (k := 8) hx₂ hlt₂
  simp only [countlZeroTable, getElem?_len8tab hx₃ hlt₃, Option.bind_eq_bind, Option.bind_some, countlZero]
  dsimp only at hlog₁
  congr 1
  omega

/-- The estimate of the number of digits is right for a power of two, and at most one too small below the next one. -/
theorem estimate_spec : ∀ l < 64, 19 * l / 64 < 19 ∧ (19 * l / 64 = 0 ∨ 10 ^ (19 * l / 64) ≤ 2 ^ l) ∧
    2 ^ (l + 1) ≤ 10 ^ (19 * l / 64 + 2) := by
  decide +kernel

theorem countDigitTbl_eq : ∀ i < 19, countDigitTbl[i]? = some (10 ^ (i + 1) - 1) := by
  decide +kernel

theorem countDigit_eq (hn : n < 2 ^ 64) : countDigit n = some (numeral 10 n).length := by
  have hor := or_one n
  have hpos : n ||| 1 ≠ 0 := by omega
  have hlog : Nat.log2 (n ||| 1) < 64 := (Nat.log2_lt hpos).mpr (by omega)
  have hge : 2 ^ Nat.log2 (n ||| 1) ≤ n ||| 1 := Nat.log2_self_le hpos
  have hlt : n ||| 1 < 2 ^ (Nat.log2 (n ||| 1) + 1) := Nat.lt_log2_self
  obtain ⟨hindex, hlower, hupper⟩ := estimate_spec _ hlog
  have hshift : (19 * (63 - countlZero (n ||| 1))) >>> 6 = 19 * Nat.log2 (n ||| 1) / 64 := by
    rw [countlZero, Nat.shiftRight_eq_div_pow]
    congr 2
    omega
  have hfloor : 19 * Nat.log2 (n ||| 1) / 64 = 0 ∨ 10 ^ (19 * Nat.log2 (n ||| 1) / 64) ≤ n := by
    obtain hzero | hpow := hlower
    · exact Or.inl hzero
    · cases hl : Nat.log2 (n ||| 1) with
      | zero => exact Or.inl rfl
      | succ l =>
          -- a power of two that is at most an odd number is at most the even number below it
          rw [hl, Nat.pow_succ] at hge
          rw [hl, Nat.pow_succ] at hpow
          exact Or.inr (by omega)
  simp only [countDigit, hshift, Option.bind_eq_bind]
  generalize 19 * Nat.log2 (n ||| 1) / 64 = e at hindex hupper hfloor
  rw [countDigitTbl_eq e hindex, Option.bind_some]
  have hten : 0 < 10 ^ (e + 1) := Nat.pow_pos (by decide)
  have hhundred : n < 10 ^ (e + 2) := by omega
  by_cases hmost : n > 10 ^ (e + 1) - 1
  · rw [if_pos hmost, length_numeral (k := e + 1) (by decide) (Or.inr (by omega)) hhundred]
  · rw [if_neg hmost, length_numeral (k := e) (by decide) hfloor (by omega)]

theorem uintDigits_eq :
    uintDigits = (List.range 200).map fun i => digit (if i % 2 = 0 then i / 2 / 10 else i / 2 % 10) := by
  decide +kernel

theorem getElem?_uintDigits {i : Nat} (hi : i < 200) :
    uintDigits[i]? = some (digit (if i % 2 = 0 then i / 2 / 10 else i / 2 % 10)) := by
  rw [uintDigits_eq, List.getElem?_map, List.getElem?_range hi, Option.map_some]

theorem putPair_eq (m : Mem) (p : Nat) {d : Nat} (hd : d < 100) :
    putPair m p d = some (written m p [digit (d / 10), digit (d % 10)]) := by
  have htens : uintDigits[d * 2]? = some (digit (d / 10)) := by
    rw [getElem?_uintDigits (by omega), if_pos (Nat.mul_mod_left d 2), Nat.mul_div_cancel d (by decide)]
  have hunits : uintDigits[d * 2 + 1]? = some (digit (d % 10)) := by
    have hhalf : (d * 2 + 1) / 2 = d := by omega
    rw [getElem?_uintDigits (by omega), if_neg (by omega), hhalf]
  simp only [putPair, htens, hunits, Option.bind_eq_bind, Option.bind_some, store_eq]
  exact congrArg some (written_front m p [_] [_])

theorem digit_of_lt_ten {d : Nat} (hd : d < 10) : ('0'.toNat + d) % 256 = digit d := by
  revert d
  decide

/-- The loop and what stands behind it fill exactly the memory of the numeral, from its end to its beginning. -/
theorem fillDown_eq (n : Nat) (m : Mem) (p : Nat) :
    fillDown m (p + (numeral 10 n).length) n = some (written m p (numeral 10 n)) := by
  induction n using Nat.strongRecOn generalizing m with
  | ind n ih =>
      rw [fillDown]
      by_cases hloop : 100 ≤ n
      · have hnum := numeral_of_sq_le (b := 10) (by decide) hloop
        have hend : p + (numeral 10 n).length - 2 = p + (numeral 10 (n / 100)).length := by
          rw [hnum, List.length_append]
          rfl
        have htens : n % 100 / 10 = n / 10 % 10 := by omega
        have hunits : n % 100 % 10 = n % 10 := by omega
        simp only [if_pos hloop, hend, Option.bind_eq_bind]
        rw [putPair_eq _ _ (Nat.mod_lt _ (by decide)), Option.bind_some, ih (n / 100) (by omega), written_behind, htens,
          hunits, hnum]
      · rw [if_neg hloop]
        by_cases hone : n < 10
        · rw [if_pos hone, numeral_of_lt hone, digit_of_lt_ten hone, store_eq]
          rfl
        · rw [if_neg hone, numeral_of_lt_sq (by decide) (by omega) (by omega), putPair_eq _ _ (by omega)]
          rfl

theorem encodeUint_eq (hn : n < 2 ^ 64) (m : Mem) (dest : Nat) : encodeUint m dest n = wrote m dest (numeral 10 n) := by
  rw [encodeUint]
  by_cases hone : n < 10
  · rw [if_pos hone, digit_of_lt_ten hone, numeral_of_lt hone, store_eq]
    rfl
  rw [if_neg hone]
  by_cases htwo : n < 100
  · rw [if_pos htwo, putPair_eq _ _ htwo, numeral_of_lt_sq (by decide) (by omega) htwo]
    rfl
  · rw [if_neg htwo, countDigit_eq hn]
    simp only [Option.bind_eq_bind, Option.bind_some, fillDown_eq]
    rfl

end Decimal

/-- Both writers write the numeral of a 64-bit word and nothing else, and what tells their length is right. -/
theorem encode_uint_spec {n : Nat} (hn : n < 2 ^ 64) (m : Mem) (dest : Nat) :
    (∃ len, encodeUintlen n = some len ∧ (numeral 10 n).length = len ∧
      encodeUint m dest n = some (written m dest (numeral 10 n), dest + len)) ∧
    (∃ len, encodeUintHexlen n = some len ∧ (numeral 16 n).length = len ∧
      encodeUintHex m dest n = some (written m dest (numeral 16 n), dest + len)) ∧
    (n ≠ 0 → (numeral 10 n).head? ≠ some '0'.toNat ∧ (numeral 16 n).head? ≠ some '0'.toNat) := by
  obtain ⟨hlen, hhex⟩ := encodeUintHex_eq hn m dest
  refine ⟨⟨_, countDigit_eq hn, rfl, encodeUint_eq hn m dest⟩, ⟨_, hlen, rfl, hhex⟩, ?_⟩
  intro hzero
  exact ⟨head_numeral (by decide) hzero, head_numeral (by decide) hzero⟩

theorem encode_uint_spec_ten :
    (∃ len, encodeUintlen 10 = some len ∧ (numeral 10 10).length = len ∧
      encodeUint (fun _ => 0) 7 10 = some (written (fun _ => 0) 7 (numeral 10 10), 7 + len)) ∧
    (∃ len, encodeUintHexlen 10 = some len ∧ (numeral 16 10).length = len ∧
      encodeUintHex (fun _ => 0) 7 10 = some (written (fun _ => 0) 7 (numeral 16 10), 7 + len)) ∧
    (10 ≠ 0 → (numeral 10 10).head? ≠ some '0'.toNat ∧ (numeral 16 10).head? ≠ some '0'.toNat) :=
  encode_uint_spec (by decide) (fun _ => 0) 7

end Zngtcp2.Str
