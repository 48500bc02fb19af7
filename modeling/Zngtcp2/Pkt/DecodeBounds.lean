import Zngtcp2.Lib.Run
import Zngtcp2.Pkt.Decode

namespace Zngtcp2.Pkt

open Lib.Run (Ends)

/-- The computation returns a value with the property, or an error; it neither reads out of bounds nor
fails an assertion. -/
abbrev Safe {α : Type} (P : α → Prop) (x : Dec α) : Prop :=
  Ends (· = .err .frameEncoding) P x

/-- The frame is not empty, ends within the payload, and so does all data it refers to. -/
structure Inside (payload : Bytes) (r : Decoded) : Prop where
  pos : 1 ≤ r.1
  le : r.1 ≤ payload.length
  datas : ∀ s ∈ r.2.datas, s.off + s.len ≤ r.1

section Primitives

variable {payload : Bytes}

/-- The length of the integer at `p`. -/
def uvarintlenAt (payload : Bytes) (p : Nat) : Nat :=
  getUvarintlen (payload.getD p 0)

theorem uvarintlenAt_pos (payload : Bytes) (p : Nat) : 0 < uvarintlenAt payload p :=
  getUvarintlen_pos _

theorem byteAt_eq {p : Nat} (hp : p < payload.length) : byteAt payload p = .ok (payload.getD p 0) := by
  rw [byteAt, List.getElem?_eq_getElem hp, List.getD_eq_getElem?_getD, List.getElem?_eq_getElem hp]
  rfl

theorem byteAt_safe {p : Nat} (hp : p < payload.length) : Safe (fun b => b = payload.getD p 0) (byteAt payload p) := by
  rw [byteAt_eq hp]
  exact rfl

theorem check_safe (len : Nat) : Safe (fun _ => len ≤ payload.length) (check payload len) := by
  rw [check]
  split
  · exact rfl
  · rename_i hlen
    exact Nat.not_lt.mp hlen

theorem readUvarintlen_eq {p : Nat} (hp : p < payload.length) :
    readUvarintlen payload p = .ok (uvarintlenAt payload p) := by
  rw [readUvarintlen, byteAt_eq hp]
  rfl

theorem readUvarintlen_safe {p : Nat} (hp : p < payload.length) :
    Safe (fun n => n = uvarintlenAt payload p) (readUvarintlen payload p) := by
  rw [readUvarintlen_eq hp]
  exact rfl

theorem readUvarint_eq {p : Nat} (hp : p + uvarintlenAt payload p ≤ payload.length) :
    readUvarint payload p = .ok (getUvarint (payload.drop p), p + uvarintlenAt payload p) := by
  have hpos := uvarintlenAt_pos payload p
  rw [readUvarint, readUvarintlen_eq (by omega)]
  simp only [bind, Except.bind]
  rw [if_neg (by omega)]

theorem readUvarint_safe {p : Nat} (hp : p + uvarintlenAt payload p ≤ payload.length) :
    Safe (fun r => r.2 = p + uvarintlenAt payload p) (readUvarint payload p) := by
  rw [readUvarint_eq hp]
  exact rfl

theorem readBytes_safe {p n : Nat} (hp : p + n ≤ payload.length) :
    Safe (fun r => r.1 = ⟨p, n⟩ ∧ r.2 = p + n) (readBytes payload p n) := by
  rw [readBytes, if_neg (by omega)]
  exact ⟨rfl, rfl⟩

/-- `r` bytes are accounted for behind the integer. -/
theorem skipUvarint_safe {len p : Nat} (r : Nat) (hlen : p + (r + 1) = len) (hle : len ≤ payload.length) :
    Safe (fun out => out.2 = p + uvarintlenAt payload p ∧ out.2 + r = out.1 ∧ out.1 ≤ payload.length)
      (skipUvarint payload len p) := by
  have hpos := uvarintlenAt_pos payload p
  rw [skipUvarint]
  refine Ends.bind (readUvarintlen_safe (by omega)) ?_
  rintro n rfl
  refine Ends.bind (check_safe _) fun _ hle' => ?_
  exact ⟨rfl, by simp only; omega, hle'⟩

theorem skipLength_safe {len p : Nat} (hlen : p + 1 = len) (hle : len ≤ payload.length) :
    Safe (fun out => out.2.1 = uvarintlenAt payload p ∧ out.1 = p + out.2.1 + out.2.2 ∧ out.1 ≤ payload.length)
      (skipLength payload len p) := by
  have hpos := uvarintlenAt_pos payload p
  rw [skipLength]
  refine Ends.bind (readUvarintlen_safe (by omega)) ?_
  rintro n rfl
  refine Ends.bind (check_safe _) fun _ hle' => ?_
  refine Ends.bind (readUvarint_safe (by omega)) ?_
  rintro ⟨vi, p'⟩ _
  simp only
  split
  · exact rfl
  · rename_i hvi
    exact ⟨rfl, by simp only; omega, by simp only; omega⟩

theorem atEnd_safe {p len : Nat} {fr : RxFrame Slice} (hp : p = len) (hpos : 1 ≤ len) (hle : len ≤ payload.length)
    (hdatas : ∀ s ∈ fr.datas, s.off + s.len ≤ len) : Safe (Inside payload) (atEnd p len fr) := by
  rw [atEnd, if_pos hp]
  exact ⟨hpos, hle, hdatas⟩

theorem decodeOne_safe {mk : Nat → RxFrame Slice} (hmk : ∀ a, (mk a).datas = []) :
    Safe (Inside payload) (decodeOne payload mk) := by
  rw [decodeOne]
  refine Ends.bind (check_safe _) fun _ hle => ?_
  refine Ends.bind (skipUvarint_safe 0 rfl hle) ?_
  rintro ⟨len, p⟩ ⟨hp, hlen, hle⟩
  simp only at hp hlen hle
  refine Ends.bind (readUvarint_safe (by omega)) ?_
  rintro ⟨a, p'⟩ hp'
  simp only at hp'
  exact atEnd_safe (by omega) (by omega) hle (by simp [hmk])

theorem decodeTwo_safe {mk : Nat → Nat → RxFrame Slice} (hmk : ∀ a b, (mk a b).datas = []) :
    Safe (Inside payload) (decodeTwo payload mk) := by
  rw [decodeTwo]
  refine Ends.bind (check_safe _) fun _ hle => ?_
  refine Ends.bind (skipUvarint_safe 1 rfl hle) ?_
  rintro ⟨len, p⟩ ⟨hp, hlen, hle⟩
  simp only at hp hlen hle
  refine Ends.bind (skipUvarint_safe 0 hlen hle) ?_
  rintro ⟨len', p'⟩ ⟨hp', hlen', hle'⟩
  simp only at hp' hlen' hle'
  refine Ends.bind (readUvarint_safe (by omega)) ?_
  rintro ⟨a, q⟩ hq
  obtain rfl : q = p := hq.trans hp.symm
  refine Ends.bind (readUvarint_safe (by omega)) ?_
  rintro ⟨b, q'⟩ hq'
  simp only at hq'
  exact atEnd_safe (by omega) (by omega) hle' (by simp [hmk])

theorem decodePathData_safe {mk : Slice → RxFrame Slice} (hmk : ∀ s, (mk s).datas = [s]) :
    Safe (Inside payload) (decodePathData payload mk) := by
  rw [decodePathData]
  refine Ends.bind (check_safe _) fun _ hle => ?_
  refine Ends.bind (readBytes_safe hle) ?_
  rintro ⟨data, p⟩ ⟨hdata, hp⟩
  simp only at hdata hp
  subst hdata
  refine atEnd_safe hp (by omega) hle fun s hs => ?_
  rw [hmk] at hs
  rw [List.mem_singleton.mp hs]
  exact Nat.le_refl 9

/-- The place behind `k` integers. -/
def afterUvarints (payload : Bytes) : Nat → Nat → Nat
  | 0, p => p
  | k + 1, p => afterUvarints payload k (p + uvarintlenAt payload p)

theorem afterUvarints_add (j k p : Nat) :
    afterUvarints payload (j + k) p = afterUvarints payload k (afterUvarints payload j p) := by
  induction j generalizing p with
  | zero => rw [Nat.zero_add, afterUvarints]
  | succ j ih => rw [Nat.succ_add, afterUvarints, ih, afterUvarints]

theorem le_afterUvarints (k p : Nat) : p ≤ afterUvarints payload k p := by
  induction k generalizing p with
  | zero => exact Nat.le_refl p
  | succ k ih =>
      rw [afterUvarints]
      exact Nat.le_trans (Nat.le_add_right _ _) (ih _)

theorem skipUvarints_safe {k len p : Nat} (r : Nat) (hlen : p + (r + k) = len) (hle : len ≤ payload.length) :
    Safe (fun out => out.2 = afterUvarints payload k p ∧ out.2 + r = out.1 ∧ out.1 ≤ payload.length)
      (skipUvarints payload k len p) := by
  induction k generalizing len p with
  | zero => exact ⟨rfl, hlen, hle⟩
  | succ k ih =>
      rw [skipUvarints]
      refine Ends.bind (skipUvarint_safe (r + k) (by omega) hle) ?_
      rintro ⟨len', p'⟩ ⟨hp', hlen', hle'⟩
      simp only at hp' hlen' hle'
      rw [afterUvarints, ← hp']
      exact ih hlen' hle'

theorem readRanges_safe {k p : Nat} (hle : afterUvarints payload (2 * k) p ≤ payload.length) :
    Safe (fun r => r.2 = afterUvarints payload (2 * k) p) (readRanges payload k p) := by
  induction k generalizing p with
  | zero => exact rfl
  | succ k ih =>
      have hafter : afterUvarints payload (2 * (k + 1)) p = afterUvarints payload (2 * k)
          (p + uvarintlenAt payload p + uvarintlenAt payload (p + uvarintlenAt payload p)) := rfl
      rw [hafter] at hle ⊢
      have hmono := Nat.le_trans (le_afterUvarints _ _) hle
      rw [readRanges]
      refine Ends.bind (readUvarint_safe (by omega)) ?_
      rintro ⟨gap, q⟩ hq
      subst hq
      refine Ends.bind (readUvarint_safe hmono) ?_
      rintro ⟨len, q'⟩ hq'
      subst hq'
      refine Ends.bind (ih hle) ?_
      rintro ⟨ranges, q''⟩ hq''
      exact hq''

theorem passRanges_safe {k p : Nat} (hle : afterUvarints payload (2 * k) p ≤ payload.length) :
    Safe (fun q => q = afterUvarints payload (2 * k) p) (passRanges payload k p) := by
  induction k generalizing p with
  | zero => exact rfl
  | succ k ih =>
      have hafter : afterUvarints payload (2 * (k + 1)) p = afterUvarints payload (2 * k)
          (p + uvarintlenAt payload p + uvarintlenAt payload (p + uvarintlenAt payload p)) := rfl
      rw [hafter] at hle ⊢
      have hmono := Nat.le_trans (le_afterUvarints _ _) hle
      have hpos := uvarintlenAt_pos payload p
      have hpos' := uvarintlenAt_pos payload (p + uvarintlenAt payload p)
      rw [passRanges]
      refine Ends.bind (readUvarintlen_safe (by omega)) ?_
      rintro n rfl
      refine Ends.bind (readUvarintlen_safe (by omega)) ?_
      rintro m rfl
      exact ih hle

end Primitives

section Decoders

variable (payload : Bytes)

theorem decodePaddingFrame_safe (hne : payload.length ≠ 0) : Safe (Inside payload) (decodePaddingFrame payload) := by
  rw [decodePaddingFrame, if_neg hne]
  have hle := (List.takeWhile_sublist (l := payload.drop 1) (· = 0)).length_le
  rw [List.length_drop] at hle
  exact ⟨Nat.le_add_right _ _, by simp only; omega, fun s hs => (nomatch hs)⟩

theorem decodeResetStreamFrame_safe : Safe (Inside payload) (decodeResetStreamFrame payload) := by
  rw [decodeResetStreamFrame]
  refine Ends.bind (check_safe _) fun _ hle => ?_
  refine Ends.bind (skipUvarint_safe 2 rfl hle) ?_
  rintro ⟨len₁, p₁⟩ ⟨hp₁, hlen₁, hle₁⟩
  simp only at hp₁ hlen₁ hle₁
  refine Ends.bind (skipUvarint_safe 1 hlen₁ hle₁) ?_
  rintro ⟨len₂, p₂⟩ ⟨hp₂, hlen₂, hle₂⟩
  simp only at hp₂ hlen₂ hle₂
  refine Ends.bind (skipUvarint_safe 0 hlen₂ hle₂) ?_
  rintro ⟨len₃, p₃⟩ ⟨hp₃, hlen₃, hle₃⟩
  simp only at hp₃ hlen₃ hle₃
  refine Ends.bind (readUvarint_safe (by omega)) ?_
  rintro ⟨streamId, q₁⟩ hq₁
  obtain rfl : q₁ = p₁ := hq₁.trans hp₁.symm
  refine Ends.bind (readUvarint_safe (by omega)) ?_
  rintro ⟨appErrorCode, q₂⟩ hq₂
  obtain rfl : q₂ = p₂ := hq₂.trans hp₂.symm
  refine Ends.bind (readUvarint_safe (by omega)) ?_
  rintro ⟨finalSize, q₃⟩ hq₃
  simp only at hq₃
  exact atEnd_safe (by omega) (by omega) hle₃ (fun s hs => (nomatch hs))

/-- The place behind an integer that is there under a condition. -/
def afterIf (c : Bool) (p : Nat) : Nat :=
  if c then p + uvarintlenAt payload p else p

theorem le_afterIf (c : Bool) (p : Nat) : p ≤ afterIf payload c p := by
  rw [afterIf]
  split
  · exact Nat.le_add_right _ _
  · exact Nat.le_refl p

theorem skipIf_safe {c : Bool} {len p : Nat} (hlen : p = len) (hle : len ≤ payload.length) :
    Safe (fun out => out.2 = afterIf payload c p ∧ out.2 = out.1 ∧ out.1 ≤ payload.length) (skipIf payload c len p) := by
  rw [skipIf, afterIf]
  split
  · refine Ends.bind (check_safe _) fun _ hle' => ?_
    exact skipUvarint_safe 0 (by omega) hle'
  · exact ⟨rfl, hlen, hle⟩

theorem readIf_safe {c : Bool} {p : Nat} (hp : afterIf payload c p ≤ payload.length) :
    Safe (fun r => r.2 = afterIf payload c p) (readIf payload c p) := by
  rw [readIf]
  rw [afterIf] at hp ⊢
  split
  · rename_i hc
    rw [if_pos hc] at hp
    exact readUvarint_safe hp
  · exact rfl

theorem skipFrameType_safe {c : Bool} {len p : Nat} (hlen : p + 1 = len) (hle : len ≤ payload.length) :
    Safe (fun out => out.2 = afterIf payload c p ∧ out.2 + 1 = out.1 ∧ out.1 ≤ payload.length)
      (skipFrameType payload c len p) := by
  have hpos := uvarintlenAt_pos payload p
  rw [skipFrameType, afterIf]
  split
  · rw [skipUvarint]
    refine Ends.bind (readUvarintlen_safe (by omega)) ?_
    rintro n rfl
    refine Ends.bind (check_safe _) fun _ hle' => ?_
    exact ⟨rfl, by simp only; omega, hle'⟩
  · exact ⟨rfl, hlen, hle⟩

theorem decodeConnectionCloseFrame_safe : Safe (Inside payload) (decodeConnectionCloseFrame payload) := by
  rw [decodeConnectionCloseFrame]
  refine Ends.bind (check_safe _) fun _ hle => ?_
  refine Ends.bind (byteAt_safe (by omega)) fun type _ => ?_
  refine Ends.bind (skipUvarint_safe 1 rfl hle) ?_
  rintro ⟨len₁, p₁⟩ ⟨hp₁, hlen₁, hle₁⟩
  simp only at hp₁ hlen₁ hle₁
  refine Ends.bind (skipFrameType_safe payload hlen₁ hle₁) ?_
  rintro ⟨len₂, p₂⟩ ⟨hp₂, hlen₂, hle₂⟩
  simp only at hp₂ hlen₂ hle₂
  have hmono : p₁ ≤ p₂ := by
    rw [hp₂]
    exact le_afterIf payload _ p₁
  refine Ends.bind (skipLength_safe hlen₂ hle₂) ?_
  rintro ⟨len₃, n, reasonlen⟩ ⟨hn, hlen₃, hle₃⟩
  simp only at hn hlen₃ hle₃
  refine Ends.bind (readUvarint_safe (by omega)) ?_
  rintro ⟨errorCode, q₁⟩ hq₁
  obtain rfl : q₁ = p₁ := hq₁.trans hp₁.symm
  refine Ends.bind (readIf_safe payload (by omega)) ?_
  rintro ⟨frameType, q₂⟩ hq₂
  obtain rfl : q₂ = p₂ := hq₂.trans hp₂.symm
  refine atEnd_safe (by omega) (by omega) hle₃ fun s hs => ?_
  have hs : s = ⟨q₂ + n, reasonlen⟩ := by
    split at hs
    · exact List.mem_singleton.mp hs
    · exact List.mem_singleton.mp hs
  rw [hs]
  simp only
  omega

theorem decodeNewConnectionIdFrame_safe : Safe (Inside payload) (decodeNewConnectionIdFrame payload) := by
  rw [decodeNewConnectionIdFrame]
  refine Ends.bind (check_safe _) fun _ hle => ?_
  refine Ends.bind (skipUvarint_safe 18 rfl hle) ?_
  rintro ⟨len₁, p₁⟩ ⟨hp₁, hlen₁, hle₁⟩
  simp only at hp₁ hlen₁ hle₁
  refine Ends.bind (skipUvarint_safe 17 hlen₁ hle₁) ?_
  rintro ⟨len₂, p₂⟩ ⟨hp₂, hlen₂, hle₂⟩
  simp only at hp₂ hlen₂ hle₂
  refine Ends.bind (byteAt_safe (by omega)) fun cil _ => ?_
  simp only
  split
  · exact rfl
  refine Ends.bind (check_safe _) fun _ hle₃ => ?_
  refine Ends.bind (readUvarint_safe (by omega)) ?_
  rintro ⟨seq, q₁⟩ hq₁
  obtain rfl : q₁ = p₁ := hq₁.trans hp₁.symm
  refine Ends.bind (readUvarint_safe (by simp only; omega)) ?_
  rintro ⟨retirePriorTo, q₂⟩ hq₂
  obtain rfl : q₂ = p₂ := hq₂.trans hp₂.symm
  refine Ends.bind (readBytes_safe (by simp only; omega)) ?_
  rintro ⟨cid, q₃⟩ ⟨hcid, hq₃⟩
  simp only at hcid hq₃
  refine Ends.bind (readBytes_safe (by simp only; omega)) ?_
  rintro ⟨token, q₄⟩ ⟨htoken, hq₄⟩
  simp only at htoken hq₄
  refine atEnd_safe (by simp only; omega) (by omega) hle₃ fun s hs => ?_
  rcases List.mem_cons.mp hs with rfl | hs
  · rw [hcid]
    simp only
    omega
  · rw [List.mem_singleton.mp hs, htoken]
    simp only
    omega

theorem decodeCryptoFrame_safe : Safe (Inside payload) (decodeCryptoFrame payload) := by
  rw [decodeCryptoFrame]
  refine Ends.bind (check_safe _) fun _ hle => ?_
  refine Ends.bind (skipUvarint_safe 1 rfl hle) ?_
  rintro ⟨len₁, p₁⟩ ⟨hp₁, hlen₁, hle₁⟩
  simp only at hp₁ hlen₁ hle₁
  refine Ends.bind (skipLength_safe hlen₁ hle₁) ?_
  rintro ⟨len₂, n, datalen⟩ ⟨hn, hlen₂, hle₂⟩
  simp only at hn hlen₂ hle₂
  refine Ends.bind (readUvarint_safe (by omega)) ?_
  rintro ⟨offset, q₁⟩ hq₁
  obtain rfl : q₁ = p₁ := hq₁.trans hp₁.symm
  refine atEnd_safe (by omega) (by omega) hle₂ fun s hs => ?_
  rw [List.mem_singleton.mp hs]
  simp only
  omega

/-- A frame that is data with its length in front. -/
theorem decodeLength_safe {mk : Slice → RxFrame Slice} (hmk : ∀ s, (mk s).datas = [s]) :
    Safe (Inside payload) (do
      check payload 2
      let (len, n, datalen) ← skipLength payload 2 1
      atEnd (1 + n + datalen) len (mk ⟨1 + n, datalen⟩)) := by
  refine Ends.bind (check_safe _) fun _ hle => ?_
  refine Ends.bind (skipLength_safe rfl hle) ?_
  rintro ⟨len, n, datalen⟩ ⟨hn, hlen, hle'⟩
  simp only at hn hlen hle'
  have hpos := uvarintlenAt_pos payload 1
  refine atEnd_safe (by omega) (by omega) hle' fun s hs => ?_
  rw [hmk] at hs
  rw [List.mem_singleton.mp hs]
  simp only
  omega

theorem decodeDatagramFrame_safe (hne : payload.length ≠ 0) : Safe (Inside payload) (decodeDatagramFrame payload) := by
  rw [decodeDatagramFrame]
  refine Ends.bind (byteAt_safe (by omega)) fun type _ => ?_
  split
  · refine atEnd_safe (by omega) (by omega) (Nat.le_refl _) fun s hs => ?_
    rw [List.mem_singleton.mp hs]
    simp only
    omega
  · exact decodeLength_safe payload (fun _ => rfl)

theorem skipDatalen_safe {c : Bool} {len p : Nat} (hlen : p = len) (hle : len ≤ payload.length) :
    Safe (fun out => out.1 = (if c then p + out.2.1 + out.2.2 else payload.length) ∧ p ≤ out.1 ∧ out.1 ≤ payload.length)
      (skipDatalen payload c len p) := by
  rw [skipDatalen]
  cases c with
  | true =>
      refine Ends.bind (check_safe _) fun _ hle' => ?_
      have hskip := skipLength_safe (show p + 1 = len + 1 by omega) hle'
      cases hout : skipLength payload (len + 1) p with
      | error e =>
          rw [hout] at hskip
          exact hskip
      | ok out =>
          rw [hout] at hskip
          obtain ⟨_, hlen', hle''⟩ := hskip
          exact ⟨hlen', by omega, hle''⟩
  | false => exact ⟨rfl, by omega, Nat.le_refl _⟩

theorem decodeStreamFrame_safe : Safe (Inside payload) (decodeStreamFrame payload) := by
  rw [decodeStreamFrame]
  refine Ends.bind (check_safe _) fun _ hle => ?_
  refine Ends.bind (byteAt_safe (by omega)) fun type _ => ?_
  refine Ends.bind (skipUvarint_safe 0 rfl hle) ?_
  rintro ⟨len₁, p₁⟩ ⟨hp₁, hlen₁, hle₁⟩
  simp only at hp₁ hlen₁ hle₁
  refine Ends.bind (skipIf_safe payload hlen₁ hle₁) ?_
  rintro ⟨len₂, p₂⟩ ⟨hp₂, hlen₂, hle₂⟩
  simp only at hp₂ hlen₂ hle₂
  have hmono : p₁ ≤ p₂ := by
    rw [hp₂]
    exact le_afterIf payload _ p₁
  refine Ends.bind (skipDatalen_safe payload hlen₂ hle₂) ?_
  rintro ⟨len₃, n, datalen⟩ ⟨hlen₃, hge₃, hle₃⟩
  simp only at hlen₃ hge₃ hle₃
  refine Ends.bind (readUvarint_safe (by omega)) ?_
  rintro ⟨streamId, q₁⟩ hq₁
  obtain rfl : q₁ = p₁ := hq₁.trans hp₁.symm
  refine Ends.bind (readIf_safe payload (by omega)) ?_
  rintro ⟨offset, q₂⟩ hq₂
  obtain rfl : q₂ = p₂ := hq₂.trans hp₂.symm
  have hpos := uvarintlenAt_pos payload 1
  have hend : ∀ data : Slice, data = (if type &&& 0x02 ≠ 0 then ⟨q₂ + n, datalen⟩ else ⟨q₂, payload.length - q₂⟩) →
      data.off + data.len = len₃ := by
    intro data hdata
    rw [hdata, hlen₃]
    by_cases hbit : type &&& 0x02 ≠ 0
    · rw [if_pos hbit, if_pos (decide_eq_true hbit)]
    · rw [if_neg hbit, if_neg (by simpa using hbit)]
      simp only
      omega
  refine atEnd_safe (hend _ rfl) (by omega) hle₃ fun s hs => ?_
  rw [List.mem_singleton.mp hs]
  exact Nat.le_of_eq (hend _ rfl)

theorem skipEcnCounts_safe {c : Bool} {len p : Nat} (hlen : p = len) (hle : len ≤ payload.length) :
    Safe (fun out => out.2 = (if c then afterUvarints payload 3 p else p) ∧ out.2 = out.1 ∧ out.1 ≤ payload.length)
      (skipEcnCounts payload c len p) := by
  rw [skipEcnCounts]
  split
  · refine Ends.bind (check_safe _) fun _ hle' => ?_
    exact skipUvarints_safe 0 (by omega) hle'
  · exact ⟨rfl, hlen, hle⟩

theorem decodeAckFrame_safe : Safe (Inside payload) (decodeAckFrame payload) := by
  rw [decodeAckFrame]
  refine Ends.bind (check_safe _) fun _ hle => ?_
  refine Ends.bind (byteAt_safe (by omega)) fun type _ => ?_
  refine Ends.bind (skipUvarint_safe 3 rfl hle) ?_
  rintro ⟨len₁, p₁⟩ ⟨hp₁, hlen₁, hle₁⟩
  simp only at hp₁ hlen₁ hle₁
  refine Ends.bind (skipUvarint_safe 2 hlen₁ hle₁) ?_
  rintro ⟨len₂, p₂⟩ ⟨hp₂, hlen₂, hle₂⟩
  simp only at hp₂ hlen₂ hle₂
  refine Ends.bind (readUvarintlen_safe (by omega)) fun nrangecnt hn => ?_
  have hpos := uvarintlenAt_pos payload p₂
  refine Ends.bind (check_safe _) fun _ hle₃ => ?_
  refine Ends.bind (readUvarint_safe (by omega)) ?_
  rintro ⟨rangecnt, p₃⟩ hp₃
  simp only at hp₃
  simp only
  split
  · exact rfl
  rename_i hcnt
  rw [not_or, Nat.not_lt, Nat.not_lt] at hcnt
  refine Ends.bind (skipUvarint_safe (2 * rangecnt) (by omega) (by omega)) ?_
  rintro ⟨len₄, p₄⟩ ⟨hp₄, hlen₄, hle₄⟩
  simp only at hp₄ hlen₄ hle₄
  refine Ends.bind (skipUvarints_safe 0 (by omega) hle₄) ?_
  rintro ⟨len₅, p₅⟩ ⟨hp₅, hlen₅, hle₅⟩
  simp only at hp₅ hlen₅ hle₅
  refine Ends.bind (skipEcnCounts_safe payload hlen₅ hle₅) ?_
  rintro ⟨len₆, p₆⟩ ⟨hp₆, hlen₆, hle₆⟩
  simp only at hp₆ hlen₆ hle₆
  have hp₅₆ : p₅ ≤ p₆ := by
    rw [hp₆]
    split
    · exact le_afterUvarints 3 p₅
    · exact Nat.le_refl _
  have hp₄₅ : p₄ ≤ p₅ := by
    rw [hp₅]
    exact le_afterUvarints _ _
  refine Ends.bind (readUvarint_safe (by omega)) ?_
  rintro ⟨largestAck, q₁⟩ hq₁
  obtain rfl : q₁ = p₁ := hq₁.trans hp₁.symm
  refine Ends.bind (readUvarint_safe (by simp only; omega)) ?_
  rintro ⟨ackDelay, q₂⟩ hq₂
  obtain rfl : q₂ = p₂ := hq₂.trans hp₂.symm
  have hq₃ : q₂ + nrangecnt = p₃ := by rw [hn, hp₃]
  simp only
  rw [hq₃]
  refine Ends.bind (readUvarint_safe (by omega)) ?_
  rintro ⟨firstAckRange, q₄⟩ hq₄
  obtain rfl : q₄ = p₄ := hq₄.trans hp₄.symm
  -- The ranges that are stored and those that are passed over are all ranges.
  have hsplit : afterUvarints payload (2 * (rangecnt - min 32 rangecnt))
      (afterUvarints payload (2 * min 32 rangecnt) q₄) = p₅ := by
    rw [← afterUvarints_add, hp₅]
    congr 1
    omega
  refine Ends.bind (readRanges_safe ?_) ?_
  · have := @le_afterUvarints payload (2 * (rangecnt - min 32 rangecnt)) (afterUvarints payload (2 * min 32 rangecnt) q₄)
    simp only
    omega
  rintro ⟨ranges, q₅⟩ hq₅
  simp only at hq₅
  subst hq₅
  refine Ends.bind (passRanges_safe (by simp only; omega)) ?_
  rintro q₆ hq₆
  obtain rfl : q₆ = p₅ := hq₆.trans hsplit
  split
  · rename_i htype
    have hafter : p₆ = q₆ + uvarintlenAt payload q₆ + uvarintlenAt payload (q₆ + uvarintlenAt payload q₆) +
        uvarintlenAt payload (q₆ + uvarintlenAt payload q₆ + uvarintlenAt payload (q₆ + uvarintlenAt payload q₆)) := by
      rw [hp₆, if_pos (decide_eq_true htype)]
      rfl
    refine Ends.bind (readUvarint_safe (by omega)) ?_
    rintro ⟨ect0, q₇⟩ rfl
    refine Ends.bind (readUvarint_safe (by simp only; omega)) ?_
    rintro ⟨ect1, q₈⟩ rfl
    refine Ends.bind (readUvarint_safe (by simp only; omega)) ?_
    rintro ⟨ce, q₉⟩ rfl
    exact atEnd_safe (by simp only; omega) (by omega) hle₆ (fun s hs => (nomatch hs))
  · rename_i htype
    rw [if_neg (by simpa using htype)] at hp₆
    exact atEnd_safe (by omega) (by omega) hle₆ (fun s hs => (nomatch hs))

theorem ite_safe {α : Type} {P : α → Prop} {c : Prop} [Decidable c] {x y : Dec α} (hx : Safe P x) (hy : Safe P y) :
    Safe P (if c then x else y) := by
  split
  · exact hx
  · exact hy

theorem one_inside (hne : payload.length ≠ 0) {fr : RxFrame Slice} (hfr : fr.datas = []) : Inside payload (1, fr) :=
  ⟨Nat.le_refl 1, by simp only; omega, by simp [hfr]⟩

theorem decodeOneOf_safe (hne : payload.length ≠ 0) {t : UInt8} {mk mk' : Nat → RxFrame Slice}
    (hmk : ∀ a, (mk a).datas = []) (hmk' : ∀ a, (mk' a).datas = []) :
    Safe (Inside payload) (do
      let type ← byteAt payload 0
      decodeOne payload (if type = t then mk else mk')) := by
  refine Ends.bind (byteAt_safe (by omega)) fun type _ => ?_
  split
  · exact decodeOne_safe hmk
  · exact decodeOne_safe hmk'

theorem decodeFrameOf_safe (hne : payload.length ≠ 0) (type : UInt8) :
    Safe (Inside payload) (decodeFrameOf payload type) := by
  rw [decodeFrameOf]
  refine ite_safe (decodePaddingFrame_safe payload hne) ?_
  refine ite_safe (decodeResetStreamFrame_safe payload) ?_
  refine ite_safe (decodeConnectionCloseFrame_safe payload) ?_
  refine ite_safe (decodeOne_safe fun _ => rfl) ?_
  refine ite_safe (decodeTwo_safe fun _ _ => rfl) ?_
  refine ite_safe (decodeOneOf_safe payload hne (fun _ => rfl) (fun _ => rfl)) ?_
  refine ite_safe (by rw [decodePingFrame, if_neg hne]; exact one_inside payload hne rfl) ?_
  refine ite_safe (decodeOne_safe fun _ => rfl) ?_
  refine ite_safe (decodeTwo_safe fun _ _ => rfl) ?_
  refine ite_safe (decodeOneOf_safe payload hne (fun _ => rfl) (fun _ => rfl)) ?_
  refine ite_safe (decodeNewConnectionIdFrame_safe payload) ?_
  refine ite_safe (decodeTwo_safe fun _ _ => rfl) ?_
  refine ite_safe (decodeAckFrame_safe payload) ?_
  refine ite_safe (decodePathData_safe fun _ => rfl) ?_
  refine ite_safe (decodePathData_safe fun _ => rfl) ?_
  refine ite_safe (decodeCryptoFrame_safe payload) ?_
  refine ite_safe (decodeLength_safe payload fun _ => rfl) ?_
  refine ite_safe (decodeOne_safe fun _ => rfl) ?_
  refine ite_safe (by rw [decodeHandshakeDoneFrame, if_neg hne]; exact one_inside payload hne rfl) ?_
  refine ite_safe (decodeDatagramFrame_safe payload hne) ?_
  exact ite_safe (decodeStreamFrame_safe payload) rfl

/-- Whatever the payload, the decoder returns an error or a frame inside of it. -/
theorem decodeFrame_safe : Safe (Inside payload) (decodeFrame payload) := by
  rw [decodeFrame]
  split
  · exact rfl
  · rename_i hne
    exact Ends.bind (byteAt_safe (by omega)) fun type _ => decodeFrameOf_safe payload hne type

end Decoders

theorem decodeFrames_ends {fuel : Nat} {payload : Bytes} (hfuel : payload.length ≤ fuel) :
    ∃ r, decodeFrames fuel payload = some r ∧ Safe (fun frs => (frs.map Prod.fst).sum = payload.length) r := by
  induction fuel generalizing payload with
  | zero =>
      obtain rfl := List.eq_nil_of_length_eq_zero (Nat.le_zero.mp hfuel)
      exact ⟨_, rfl, rfl⟩
  | succ fuel ih =>
      rw [decodeFrames]
      split
      · rename_i hnil
        rw [hnil]
        exact ⟨_, rfl, rfl⟩
      have hsafe := decodeFrame_safe payload
      split
      · rename_i e he
        rw [he] at hsafe
        exact ⟨_, rfl, hsafe⟩
      · rename_i n fr hfr
        rw [hfr] at hsafe
        obtain ⟨hpos, hle, _⟩ := hsafe
        simp only at hpos hle
        obtain ⟨r, hr, hrest⟩ := @ih (payload.drop n) (by rw [List.length_drop]; omega)
        rw [hr]
        refine ⟨_, rfl, ?_⟩
        cases r with
        | error e => exact hrest
        | ok frs =>
            change (frs.map Prod.fst).sum = (payload.drop n).length at hrest
            change (((n, fr) :: frs).map Prod.fst).sum = payload.length
            rw [List.map_cons, List.sum_cons, hrest, List.length_drop]
            simp only
            omega

/-- For every payload the decoder returns an error, or a frame that lies inside of it, with no byte
read out of bounds and no assertion failed; and the loop over all frames ends. -/
theorem decodeFrame_robust (payload : Bytes) :
    ((∃ e, decodeFrame payload = .error (.err e)) ∨ ∃ r, decodeFrame payload = .ok r ∧ Inside payload r) ∧
      ∃ r, decodeFrames payload.length payload = some r ∧
        ((∃ e, r = .error (.err e)) ∨ ∃ frs, r = .ok frs ∧ (frs.map Prod.fst).sum = payload.length) := by
  have cases_of_safe : ∀ {α : Type} {P : α → Prop} {x : Dec α}, Safe P x → (∃ e, x = .error (.err e)) ∨ ∃ a, x = .ok a ∧ P a := by
    intro α P x hx
    cases x with
    | error e => exact Or.inl ⟨.frameEncoding, congrArg Except.error hx⟩
    | ok a => exact Or.inr ⟨a, rfl, hx⟩
  refine ⟨cases_of_safe (decodeFrame_safe payload), ?_⟩
  obtain ⟨r, hr, hsafe⟩ := decodeFrames_ends (Nat.le_refl payload.length)
  exact ⟨r, hr, cases_of_safe hsafe⟩

end Zngtcp2.Pkt
