import Mathlib.Tactic.Ring
import Zngtcp2.Pkt.Hd

namespace Zngtcp2.Pkt

theorem foldl_uintbe (n : Nat) (bs : Bytes) :
    bs.foldl (fun n b => n * 256 + b.toNat) n = n * 256 ^ bs.length + getUintbe bs := by
  induction bs generalizing n with
  | nil => simp [getUintbe]
  | cons b bs ih =>
      rw [getUintbe, List.foldl_cons, List.foldl_cons, ih, ih (0 * 256 + b.toNat), List.length_cons, Nat.pow_succ]
      ring

theorem getUintbe_cons (b : UInt8) (bs : Bytes) : getUintbe (b :: bs) = b.toNat * 256 ^ bs.length + getUintbe bs := by
  rw [getUintbe, List.foldl_cons, foldl_uintbe]
  simp

theorem getUintbe_lt (bs : Bytes) : getUintbe bs < 256 ^ bs.length := by
  induction bs with
  | nil => simp [getUintbe]
  | cons b bs ih =>
      have hb := b.toNat_lt
      rw [getUintbe_cons, List.length_cons, Nat.pow_succ]
      calc b.toNat * 256 ^ bs.length + getUintbe bs
          < b.toNat * 256 ^ bs.length + 256 ^ bs.length := Nat.add_lt_add_left ih _
        _ = (b.toNat + 1) * 256 ^ bs.length := by ring
        _ ≤ 256 * 256 ^ bs.length := Nat.mul_le_mul_right _ (by omega)
        _ = 256 ^ bs.length * 256 := Nat.mul_comm _ _

/-- Writing an integer and reading it back keeps its low bytes. -/
theorem getUintbe_putUintbe (k n : Nat) : getUintbe (putUintbe k n) = n % 256 ^ k := by
  induction k with
  | zero => simp [putUintbe, getUintbe, Nat.mod_one]
  | succ k ih =>
      have hbyte : (UInt8.ofNat (n / 256 ^ k % 256)).toNat = n / 256 ^ k % 256 := by
        rw [UInt8.toNat_ofNat', Nat.mod_mod]
      rw [putUintbe, getUintbe_cons, hbyte, putUintbe_length, ih, Nat.mod_pow_succ]
      ring

theorem putUintbe_congr {k m n : Nat} (h : m % 256 ^ k = n % 256 ^ k) : putUintbe k m = putUintbe k n := by
  induction k with
  | zero => rfl
  | succ k ih =>
      have hhead : m / 256 ^ k % 256 = n / 256 ^ k % 256 := by
        rw [← Nat.mod_mul_right_div_self, ← Nat.mod_mul_right_div_self, ← Nat.pow_succ, h]
      have htail : m % 256 ^ k = n % 256 ^ k := by
        have hdvd : 256 ^ k ∣ 256 ^ (k + 1) := Nat.pow_dvd_pow 256 (Nat.le_succ k)
        rw [← Nat.mod_mod_of_dvd m hdvd, h, Nat.mod_mod_of_dvd n hdvd]
      rw [putUintbe, putUintbe, hhead, ih htail]

/-- Reading an integer and writing it gives the bytes back. -/
theorem putUintbe_getUintbe (bs : Bytes) : putUintbe bs.length (getUintbe bs) = bs := by
  induction bs with
  | nil => rfl
  | cons b bs ih =>
      have hlt := getUintbe_lt bs
      have hhead : getUintbe (b :: bs) / 256 ^ bs.length = b.toNat := by
        rw [getUintbe_cons, Nat.mul_comm, Nat.mul_add_div (Nat.pow_pos (by omega)), Nat.div_eq_of_lt hlt, Nat.add_zero]
      have htail : getUintbe (b :: bs) % 256 ^ bs.length = getUintbe bs % 256 ^ bs.length := by
        rw [getUintbe_cons, Nat.mul_comm, Nat.mul_add_mod]
      rw [List.length_cons, putUintbe, hhead, putUintbe_congr htail, ih, Nat.mod_eq_of_lt b.toNat_lt, UInt8.ofNat_toNat]

/-- The byte of a varint that carries its length. -/
theorem uvarintHead_toNat {e m : Nat} (he : e < 4) (hm : m < 64) :
    (UInt8.ofNat m ||| UInt8.ofNat (64 * e)).toNat = 64 * e + m := by
  have hor := @Nat.two_pow_add_eq_or_of_lt 6 m hm e
  have hm' : (UInt8.ofNat m).toNat = m := by
    rw [UInt8.toNat_ofNat']
    omega
  have he' : (UInt8.ofNat (64 * e)).toNat = 64 * e := by
    rw [UInt8.toNat_ofNat']
    omega
  rw [UInt8.toNat_or, hm', he', Nat.or_comm, hor]

/-- An integer of `2 ^ e` bytes, of which the first carries the length. -/
def uvarintBytes (e n : Nat) : Bytes :=
  orHead (UInt8.ofNat (64 * e)) (putUintbe (2 ^ e) n)

theorem uvarintBytes_length (e n : Nat) : (uvarintBytes e n).length = 2 ^ e := by
  rw [uvarintBytes, orHead_length, putUintbe_length]

theorem uvarintBytes_cons {e n : Nat} (he : e < 4) (hn : n < 2 ^ (8 * 2 ^ e - 2)) :
    ∃ k b, 2 ^ e = k + 1 ∧ uvarintBytes e n = b :: putUintbe k n ∧ b.toNat = 64 * e + n / 256 ^ k ∧
      n < 64 * 256 ^ k := by
  obtain ⟨k, hk⟩ : ∃ k, 2 ^ e = k + 1 := ⟨2 ^ e - 1, by have := Nat.two_pow_pos e; omega⟩
  have hbound : n < 64 * 256 ^ k := by
    have hpow : 2 ^ (8 * 2 ^ e - 2) = 64 * 256 ^ k := by
      rw [hk, show 8 * (k + 1) - 2 = 6 + 8 * k by omega, Nat.pow_add, Nat.pow_mul]
    omega
  have hdiv : n / 256 ^ k < 64 := Nat.div_lt_of_lt_mul (by rw [Nat.mul_comm]; exact hbound)
  refine ⟨k, UInt8.ofNat (n / 256 ^ k % 256) ||| UInt8.ofNat (64 * e), hk, ?_, ?_, hbound⟩
  · rw [uvarintBytes, hk, putUintbe, orHead]
  · rw [Nat.mod_eq_of_lt (by omega), uvarintHead_toNat he hdiv]

theorem getUvarintlen_uvarintBytes {e n : Nat} (he : e < 4) (hn : n < 2 ^ (8 * 2 ^ e - 2)) (rest : Bytes) :
    getUvarintlen ((uvarintBytes e n ++ rest).getD 0 0) = 2 ^ e := by
  obtain ⟨k, b, -, heq, hb, hbound⟩ := uvarintBytes_cons he hn
  have hdiv : n / 256 ^ k < 64 := Nat.div_lt_of_lt_mul (by rw [Nat.mul_comm]; exact hbound)
  rw [heq, List.cons_append, List.getD_cons_zero, getUvarintlen, hb, Nat.mul_add_div (by omega), Nat.div_eq_of_lt hdiv, Nat.add_zero]

theorem getUvarint_uvarintBytes {e n : Nat} (he : e < 4) (hn : n < 2 ^ (8 * 2 ^ e - 2)) (rest : Bytes) :
    getUvarint (uvarintBytes e n ++ rest) = n := by
  have hlen := getUvarintlen_uvarintBytes he hn rest
  obtain ⟨k, b, hk, heq, hb, hbound⟩ := uvarintBytes_cons he hn
  have htake : (uvarintBytes e n ++ rest).take (2 ^ e) = uvarintBytes e n := by
    rw [← uvarintBytes_length e n, List.take_left]
  simp only [getUvarint, hlen, htake]
  rw [heq, getUintbe_cons, hb, putUintbe_length, getUintbe_putUintbe]
  have hpow : 2 ^ (8 * 2 ^ e - 2) = 64 * 256 ^ k := by
    rw [hk, show 8 * (k + 1) - 2 = 6 + 8 * k by omega, Nat.pow_add, Nat.pow_mul]
  have hvalue : (64 * e + n / 256 ^ k) * 256 ^ k + n % 256 ^ k = 64 * 256 ^ k * e + n := by
    have hsplit := Nat.div_add_mod n (256 ^ k)
    calc (64 * e + n / 256 ^ k) * 256 ^ k + n % 256 ^ k
        = 64 * 256 ^ k * e + (256 ^ k * (n / 256 ^ k) + n % 256 ^ k) := by ring
      _ = 64 * 256 ^ k * e + n := by rw [hsplit]
  rw [hvalue, hpow, Nat.mul_add_mod, Nat.mod_eq_of_lt hbound]

/-- Every varint is written in one of the four lengths. -/
theorem putUvarint_eq (n : Varint) : ∃ e, e < 4 ∧ n.1 < 2 ^ (8 * 2 ^ e - 2) ∧ putUvarint n = uvarintBytes e n.1 := by
  have hn := n.2
  rw [putUvarint]
  split
  · refine ⟨0, by omega, by simpa using (by assumption : n.1 < 64), ?_⟩
    simp [uvarintBytes, putUintbe, orHead]
  split
  · exact ⟨1, by omega, by simpa using (by assumption : n.1 < 16384), rfl⟩
  split
  · exact ⟨2, by omega, by simpa using (by assumption : n.1 < 1073741824), rfl⟩
  · exact ⟨3, by omega, by simpa using hn, rfl⟩

theorem getUvarintlen_putUvarint (n : Varint) (rest : Bytes) :
    getUvarintlen ((putUvarint n ++ rest).getD 0 0) = putUvarintlen n := by
  obtain ⟨e, he, hn, heq⟩ := putUvarint_eq n
  have hlen := congrArg List.length heq
  rw [putUvarint_length, uvarintBytes_length] at hlen
  rw [heq, getUvarintlen_uvarintBytes he hn, hlen]

theorem getUvarint_putUvarint (n : Varint) (rest : Bytes) : getUvarint (putUvarint n ++ rest) = n.1 := by
  obtain ⟨e, he, hn, heq⟩ := putUvarint_eq n
  rw [heq, getUvarint_uvarintBytes he hn]

theorem getUvarint_lt (p : Bytes) : getUvarint p < 2 ^ 62 := by
  have hb := (p.getD 0 0).toNat_lt
  have hn : getUvarintlen (p.getD 0 0) ≤ 2 ^ 3 := Nat.pow_le_pow_right (by omega) (by omega)
  calc getUvarint p
      < 2 ^ (8 * getUvarintlen (p.getD 0 0) - 2) := Nat.mod_lt _ (Nat.two_pow_pos _)
    _ ≤ 2 ^ 62 := Nat.pow_le_pow_right (by omega) (by omega)

/-- `ngtcp2_put_uvarint30`: always four bytes. -/
def putUvarint30 (n : Nat) : Bytes :=
  orHead 0x80 (putUintbe 4 n)

@[simp]
theorem putUvarint30_length (n : Nat) : (putUvarint30 n).length = 4 := by
  rw [putUvarint30, orHead_length, putUintbe_length]

theorem getUvarintlen_putUvarint30 {n : Nat} (hn : n < 2 ^ 30) (rest : Bytes) :
    getUvarintlen ((putUvarint30 n ++ rest).getD 0 0) = 4 :=
  @getUvarintlen_uvarintBytes 2 n (by omega) hn rest

theorem getUvarint_putUvarint30 {n : Nat} (hn : n < 2 ^ 30) (rest : Bytes) : getUvarint (putUvarint30 n ++ rest) = n :=
  @getUvarint_uvarintBytes 2 n (by omega) hn rest

end Zngtcp2.Pkt
