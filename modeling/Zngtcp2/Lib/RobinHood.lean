import Mathlib.Tactic.Ring
import Mathlib.Data.Nat.Find
import Mathlib.Data.Finset.Card
import Mathlib.Data.Nat.ModEq
import Mathlib.Order.Interval.Finset.Nat
import Mathlib.Logic.Function.Basic

namespace Zngtcp2.Lib.RobinHood

variable {σ ε κ : Type}

/-- How a table of slots is read: `psl` is 0 in an empty slot, and in another one the number of slots from
the home of its key. -/
structure Layout (σ ε κ : Type) where
  psl : σ → Nat
  entry : σ → ε
  key : ε → κ
  len : Nat
  home : κ → Nat

variable (L : Layout σ ε κ)

/-- The slot at a position; positions go round. -/
def slot (t : Nat → σ) (i : Nat) : σ :=
  t (i % L.len)

/-- The probe sequence length at a position. -/
def distAt (t : Nat → σ) (i : Nat) : Nat :=
  L.psl (slot L t i)

def keyAt (t : Nat → σ) (i : Nat) : κ :=
  L.key (L.entry (slot L t i))

/-- Every key lies at its distance from its home, and in going backwards the distance falls by one at most
until it is that of an empty slot. -/
structure Valid (t : Nat → σ) : Prop where
  placed : ∀ i, distAt L t i ≠ 0 → L.home (keyAt L t i) + distAt L t i ≡ i + 1 [MOD L.len]
  step : ∀ i, distAt L t (i + 1) ≤ distAt L t i + 1
  inj : ∀ i j, distAt L t i ≠ 0 → distAt L t j ≠ 0 → keyAt L t i = keyAt L t j → i ≡ j [MOD L.len]

/-- The entry lies in a slot. -/
def Stored (t : Nat → σ) (e : ε) : Prop :=
  ∃ i, distAt L t i ≠ 0 ∧ L.entry (slot L t i) = e

variable {L} {t : Nat → σ}

theorem slot_congr {i j : Nat} (h : i ≡ j [MOD L.len]) : slot L t i = slot L t j :=
  congrArg t h

theorem dist_congr {i j : Nat} (h : i ≡ j [MOD L.len]) : distAt L t i = distAt L t j :=
  congrArg L.psl (slot_congr h)

theorem add_len (i : Nat) : i + L.len ≡ i [MOD L.len] :=
  Nat.add_modEq_right

theorem slot_update (s : σ) (i j : Nat) :
    slot L (Function.update t (i % L.len) s) j = if j ≡ i [MOD L.len] then s else slot L t j := by
  rw [slot, Function.update_apply]
  rfl

theorem slot_update_self (s : σ) (i : Nat) : slot L (Function.update t (i % L.len) s) i = s := by
  rw [slot_update, if_pos (Nat.ModEq.refl i)]

theorem slot_update_of_not (s : σ) {i j : Nat} (h : ¬ j ≡ i [MOD L.len]) :
    slot L (Function.update t (i % L.len) s) j = slot L t j := by
  rw [slot_update, if_neg h]

/-- Positions that are near each other are in different slots. -/
theorem not_modEq {i j : Nat} (hlt : i < j) (hlen : j < i + L.len) : ¬ j ≡ i [MOD L.len] := by
  intro h
  have hdvd := (Nat.modEq_iff_dvd' (Nat.le_of_lt hlt)).mp h.symm
  have hle := Nat.le_of_dvd (by omega) hdvd
  omega

/-- The last empty slot up to a position, which is less than a turn away. -/
theorem exists_last_empty {e : Nat} (he : distAt L t e = 0) (hlen : 0 < L.len) {n : Nat} (hn : L.len ≤ n) :
    ∃ m ≤ n, n < m + L.len ∧ distAt L t m = 0 ∧ ∀ j, m < j → j ≤ n → distAt L t j ≠ 0 := by
  let r := (n + (L.len - e % L.len)) % L.len
  have hr : r < L.len := Nat.mod_lt _ hlen
  have hmod : n - r ≡ e [MOD L.len] := by
    apply Nat.ModEq.add_right_cancel' r
    have hsum : e % L.len + (n + (L.len - e % L.len)) = n + L.len := by
      have hlt := Nat.mod_lt e hlen
      omega
    calc n - r + r = n := Nat.sub_add_cancel (by omega)
      _ ≡ n + L.len [MOD L.len] := (add_len n).symm
      _ = e % L.len + (n + (L.len - e % L.len)) := hsum.symm
      _ ≡ e + r [MOD L.len] := Nat.ModEq.add (Nat.mod_modEq e L.len) (Nat.mod_modEq _ L.len).symm
  have hempty : distAt L t (n - r) = 0 := (dist_congr hmod).trans he
  refine ⟨Nat.findGreatest (fun m => distAt L t m = 0) n, Nat.findGreatest_le n, ?_, ?_, fun j hj hjn => ?_⟩
  · have hle := Nat.le_findGreatest (P := fun m => distAt L t m = 0) (Nat.sub_le n r) hempty
    omega
  · exact Nat.findGreatest_spec (P := fun m => distAt L t m = 0) (Nat.sub_le n r) hempty
  · exact Nat.findGreatest_is_greatest (P := fun m => distAt L t m = 0) hj hjn

/-- From every position on there is an empty slot within a turn. -/
theorem exists_empty_ahead {e : Nat} (he : distAt L t e = 0) (hlen : 0 < L.len) (i : Nat) :
    ∃ n < L.len, distAt L t (i + n) = 0 := by
  obtain ⟨m, hm, hlt, hempty, -⟩ := exists_last_empty he hlen
    (show L.len ≤ i + L.len + L.len - 1 by omega)
  refine ⟨m - (i + L.len), by omega, ?_⟩
  rw [← dist_congr (add_len (i + (m - (i + L.len)))), show i + (m - (i + L.len)) + L.len = m by omega]
  exact hempty

namespace Valid

theorem dist_add (h : Valid L t) (i n : Nat) : distAt L t (i + n) ≤ distAt L t i + n := by
  induction n with
  | zero => exact Nat.le_refl _
  | succ n ih =>
      have hstep := h.step (i + n)
      rw [← Nat.add_assoc]
      omega

theorem le_dist (h : Valid L t) {i j : Nat} (hij : i ≤ j) : distAt L t j ≤ distAt L t i + (j - i) := by
  obtain ⟨n, rfl⟩ := Nat.exists_eq_add_of_le hij
  rw [Nat.add_sub_cancel_left]
  exact h.dist_add i n

/-- With an empty slot, no distance reaches the number of slots. -/
theorem dist_lt (h : Valid L t) {e : Nat} (he : distAt L t e = 0) (hlen : 0 < L.len) (i : Nat) :
    distAt L t i < L.len := by
  obtain ⟨m, hmi, hlt, hm, -⟩ := exists_last_empty he hlen (Nat.le_add_left L.len i)
  have hle := h.le_dist hmi
  rw [← dist_congr (add_len i)]
  omega

theorem home_modEq (h : Valid L t) {i : Nat} (hi : distAt L t i ≠ 0) :
    L.home (keyAt L t i) + (distAt L t i - 1) ≡ i [MOD L.len] := by
  apply Nat.ModEq.add_right_cancel' 1
  rw [Nat.add_assoc, Nat.sub_add_cancel (Nat.pos_of_ne_zero hi)]
  exact h.placed i hi

/-- A key is found by going from its home as long as the distances are at least the one gone. -/
theorem probe (h : Valid L t) {i : Nat} (hi : distAt L t i ≠ 0) {n : Nat} (hn : n < distAt L t i) :
    n + 1 ≤ distAt L t (L.home (keyAt L t i) + n) := by
  have hend := dist_congr (t := t) (h.home_modEq hi)
  have hle := h.dist_add (L.home (keyAt L t i) + n) (distAt L t i - 1 - n)
  rw [show L.home (keyAt L t i) + n + (distAt L t i - 1 - n) = L.home (keyAt L t i) + (distAt L t i - 1) by omega,
    hend] at hle
  omega

end Valid

section Insertion

variable (L) in
/-- An entry with the key `c` is about to be considered at the position `i + 1`, `q` slots from its home. -/
structure Carried (t : Nat → σ) (i : Nat) (c : κ) (q : Nat) : Prop where
  valid : Valid L t
  pos : 0 < q
  placed : L.home c + q ≡ i + 2 [MOD L.len]
  le : q ≤ distAt L t i + 1
  fresh : ∀ e, Stored L t e → L.key e ≠ c

theorem Carried.start (h : Valid L t) {c : κ} (hfresh : ∀ e, Stored L t e → L.key e ≠ c) {i : Nat}
    (hi : L.home c ≡ i + 1 [MOD L.len]) : Carried L t i c 1 where
  valid := h
  pos := Nat.zero_lt_one
  placed := Nat.ModEq.add_right 1 hi
  le := Nat.succ_le_succ (Nat.zero_le _)
  fresh := hfresh

theorem Carried.pass {i q : Nat} {c : κ} (h : Carried L t i c q) (hle : q ≤ distAt L t (i + 1)) :
    Carried L t (i + 1) c (q + 1) where
  valid := h.valid
  pos := Nat.succ_pos q
  placed := Nat.ModEq.add_right 1 h.placed
  le := Nat.succ_le_succ hle
  fresh := h.fresh

/-- Putting the carried entry where the distance is smaller keeps the table in order. -/
theorem Carried.valid_update {i q : Nat} {c : κ} (h : Carried L t i c q) (hlen : 2 ≤ L.len)
    (hlt : distAt L t (i + 1) < q) {s : σ} (hs : L.psl s = q) (hc : L.key (L.entry s) = c) :
    Valid L (Function.update t ((i + 1) % L.len) s) := by
  have hnext : ∀ j, distAt L t (j + 1) ≤ distAt L t j + 1 := h.valid.step
  refine ⟨fun j hj => ?_, fun j => ?_, fun j k hj hk heq => ?_⟩
  · rw [distAt, keyAt] at *
    by_cases hji : j ≡ i + 1 [MOD L.len]
    · rw [slot_update, if_pos hji, hs, hc]
      exact h.placed.trans (Nat.ModEq.add_right 1 hji.symm)
    · rw [slot_update_of_not s hji] at hj ⊢
      exact h.valid.placed j hj
  · rw [distAt, distAt]
    by_cases hji : j ≡ i + 1 [MOD L.len]
    · have hj1 : ¬ j + 1 ≡ i + 1 [MOD L.len] := by
        intro hmod
        have hji' : j ≡ j + 1 [MOD L.len] := hji.trans hmod.symm
        exact not_modEq (Nat.lt_succ_self j) (by omega) hji'.symm
      rw [slot_update_of_not s hj1, slot_update, if_pos hji, hs]
      have hj2 := hnext (i + 1)
      have hcongr : distAt L t (j + 1) = distAt L t (i + 1 + 1) := dist_congr (Nat.ModEq.add_right 1 hji)
      rw [distAt] at hcongr
      rw [hcongr]
      omega
    · rw [slot_update_of_not s hji]
      by_cases hj1 : j + 1 ≡ i + 1 [MOD L.len]
      · rw [slot_update, if_pos hj1, hs]
        have hcongr : distAt L t j = distAt L t i := dist_congr (Nat.ModEq.add_right_cancel' 1 hj1)
        rw [distAt] at hcongr
        rw [hcongr]
        exact h.le
      · rw [slot_update_of_not s hj1]
        exact hnext j
  · rw [distAt, slot_update] at hj hk
    rw [keyAt, keyAt, slot_update, slot_update] at heq
    by_cases hji : j ≡ i + 1 [MOD L.len]
    · by_cases hki : k ≡ i + 1 [MOD L.len]
      · exact hji.trans hki.symm
      · rw [if_pos hji, if_neg hki, hc] at heq
        rw [if_neg hki] at hk
        exact absurd heq.symm (h.fresh _ ⟨k, hk, rfl⟩)
    · by_cases hki : k ≡ i + 1 [MOD L.len]
      · rw [if_neg hji, if_pos hki, hc] at heq
        rw [if_neg hji] at hj
        exact absurd heq (h.fresh _ ⟨j, hj, rfl⟩)
      · rw [if_neg hji] at hj heq
        rw [if_neg hki] at hk heq
        exact h.valid.inj j k hj hk heq

/-- What is stored after an entry was put into an empty slot. -/
theorem stored_update_empty {i : Nat} (hi : distAt L t i = 0) {s : σ} (hs : L.psl s ≠ 0) (e : ε) :
    Stored L (Function.update t (i % L.len) s) e ↔ Stored L t e ∨ e = L.entry s := by
  refine ⟨fun ⟨j, hj, he⟩ => ?_, fun h => ?_⟩
  · rw [distAt, slot_update] at hj
    rw [slot_update] at he
    by_cases hji : j ≡ i [MOD L.len]
    · rw [if_pos hji] at he
      exact Or.inr he.symm
    · rw [if_neg hji] at hj he
      exact Or.inl ⟨j, hj, he⟩
  · obtain ⟨j, hj, he⟩ | rfl := h
    · have hji : ¬ j ≡ i [MOD L.len] := fun hmod => hj ((dist_congr hmod).trans hi)
      exact ⟨j, by rwa [distAt, slot_update_of_not s hji], by rwa [slot_update_of_not s hji]⟩
    · exact ⟨i, by rwa [distAt, slot_update_self], by rw [slot_update_self]⟩

/-- When an entry takes the slot of another one, the two have changed places. -/
theorem stored_update_swap {i : Nat} (hi : distAt L t i ≠ 0) {s : σ} (hs : L.psl s ≠ 0) (e : ε) :
    (Stored L (Function.update t (i % L.len) s) e ∨ e = L.entry (slot L t i)) ↔
      (Stored L t e ∨ e = L.entry s) := by
  constructor
  · rintro (⟨j, hj, he⟩ | rfl)
    · rw [distAt, slot_update] at hj
      rw [slot_update] at he
      by_cases hji : j ≡ i [MOD L.len]
      · rw [if_pos hji] at he
        exact Or.inr he.symm
      · rw [if_neg hji] at hj he
        exact Or.inl ⟨j, hj, he⟩
    · exact Or.inl ⟨i, hi, rfl⟩
  · rintro (⟨j, hj, rfl⟩ | rfl)
    · by_cases hji : j ≡ i [MOD L.len]
      · exact Or.inr (by rw [slot_congr hji])
      · exact Or.inl ⟨j, by rwa [distAt, slot_update_of_not s hji], by rw [slot_update_of_not s hji]⟩
    · exact Or.inl ⟨i, by rwa [distAt, slot_update_self], by rw [slot_update_self]⟩

/-- The carried entry takes the slot of one that is nearer to its home, which is carried on. -/
theorem Carried.swap {i q : Nat} {c : κ} (h : Carried L t i c q) (hlen : 2 ≤ L.len)
    (hpos : distAt L t (i + 1) ≠ 0) (hlt : distAt L t (i + 1) < q) {s : σ} (hs : L.psl s = q)
    (hc : L.key (L.entry s) = c) :
    Carried L (Function.update t ((i + 1) % L.len) s) (i + 1) (keyAt L t (i + 1)) (distAt L t (i + 1) + 1) where
  valid := h.valid_update hlen hlt hs hc
  pos := Nat.succ_pos _
  placed := Nat.ModEq.add_right 1 (h.valid.placed (i + 1) hpos)
  le := by
    rw [distAt, distAt, slot_update_self, hs]
    exact Nat.succ_le_succ (Nat.le_of_lt hlt)
  fresh := by
    rintro e ⟨j, hj, rfl⟩ hkey
    rw [distAt, slot_update] at hj
    rw [slot_update] at hkey
    by_cases hji : j ≡ i + 1 [MOD L.len]
    · rw [if_pos hji, hc] at hkey
      exact h.fresh _ ⟨i + 1, hpos, rfl⟩ hkey.symm
    · rw [if_neg hji] at hj hkey
      exact hji (h.valid.inj j (i + 1) hj hpos hkey)

end Insertion

section Crowding

variable (L) in
/-- The home of the key is one of the `n` slots from `i` on. -/
def Near (i n : Nat) (k : κ) : Prop :=
  ∃ m < n, L.home k ≡ i + m [MOD L.len]

instance (i n : Nat) (k : κ) : Decidable (Near L i n k) :=
  inferInstanceAs (Decidable (∃ m < n, L.home k ≡ i + m [MOD L.len]))

variable (L) in
/-- No `n` slots in a row are the home of more than `n + b` of the keys. -/
def Spread (b : Nat) (keys : Finset κ) : Prop :=
  ∀ i n, n ≤ L.len → (keys.filter (Near L i n)).card ≤ n + b

theorem Spread.mono {b : Nat} {keys keys' : Finset κ} (h : Spread L b keys') (hsub : keys ⊆ keys') :
    Spread L b keys :=
  fun i n hn => (Finset.card_le_card (Finset.filter_subset_filter _ hsub)).trans (h i n hn)

/-- The keys before a carried one fill the slots from the last empty one on, and their homes are among those
slots up to the home of the carried one: its distance is bounded where the homes are spread. -/
theorem Carried.le_of_spread {i q b : Nat} {c : κ} {e : Nat} {keys : Finset κ} (h : Carried L t i c q)
    (he : distAt L t e = 0) (hlen : 0 < L.len) (hkeys : ∀ e, Stored L t e → L.key e ∈ keys) (hc : c ∈ keys)
    (hspread : Spread L b keys) : q ≤ b + 1 := by
  classical
  by_cases hone : q = 1
  · omega
  have hpos := h.pos
  have hle := h.le
  have hlt := h.valid.dist_lt he hlen i
  -- two turns on, so that there is room to go back
  let j := i + 2 * L.len
  let g := j + 2 - q
  have hji : j ≡ i [MOD L.len] := by
    rw [show j = i + L.len + L.len by omega]
    exact (add_len _).trans (add_len i)
  have hdist : distAt L t j = distAt L t i := dist_congr hji
  have hhome : L.home c ≡ g [MOD L.len] := by
    apply Nat.ModEq.add_right_cancel' q
    rw [show g + q = j + 2 by omega]
    exact h.placed.trans (Nat.ModEq.add_right 2 hji.symm)
  -- the slots from `g` to `j` are taken by keys that are as far from home as the carried one
  have hback : ∀ x, g ≤ x → x ≤ j → x + 1 - g ≤ distAt L t x := by
    intro x hgx hxj
    have hxle := h.valid.le_dist hxj
    omega
  obtain ⟨m, hmg, hgm, hm, hfull⟩ := exists_last_empty he hlen (show L.len ≤ g by omega)
  have hmg' : m < g := by
    apply Nat.lt_of_le_of_ne hmg
    intro hmg
    have hbackg := hback g (Nat.le_refl g) (by omega)
    rw [hmg] at hm
    omega
  have htaken : ∀ x, m < x → x ≤ j → distAt L t x ≠ 0 := by
    intro x hmx hxj
    by_cases hxg : x ≤ g
    · exact hfull x hmx hxg
    · have hbackx := hback x (by omega) hxj
      omega
  have hturn : j < m + L.len := by
    apply Nat.lt_of_not_le
    intro hmj
    exact htaken (m + L.len) (by omega) hmj ((dist_congr (add_len m)).trans hm)
  have hnear : ∀ x, m < x → x ≤ j → Near L (m + 1) (g - m) (keyAt L t x) := by
    intro x hmx hxj
    have hx := htaken x hmx hxj
    have hxle := h.valid.le_dist (Nat.le_of_lt hmx)
    have hxback : x + 1 - g ≤ distAt L t x := by
      by_cases hgx : g ≤ x
      · exact hback x hgx hxj
      · omega
    refine ⟨x - m - distAt L t x, by omega, ?_⟩
    apply Nat.ModEq.add_right_cancel' (distAt L t x)
    rw [show m + 1 + (x - m - distAt L t x) + distAt L t x = x + 1 by omega]
    exact h.valid.placed x hx
  have hinj : Set.InjOn (keyAt L t) (Finset.Icc (m + 1) j) := by
    intro x hx y hy heq
    rw [Finset.coe_Icc, Set.mem_Icc] at hx hy
    have hmod := h.valid.inj x y (htaken x (by omega) hx.2) (htaken y (by omega) hy.2) heq
    by_contra hne
    rcases Nat.lt_or_gt_of_ne hne with hxy | hyx
    · exact not_modEq hxy (by omega) hmod.symm
    · exact not_modEq hyx (by omega) hmod
  have hnotin : c ∉ (Finset.Icc (m + 1) j).image (keyAt L t) := by
    intro hmem
    obtain ⟨x, hx, heq⟩ := Finset.mem_image.mp hmem
    rw [Finset.mem_Icc] at hx
    exact h.fresh _ ⟨x, htaken x (by omega) hx.2, rfl⟩ heq
  have hsub : insert c ((Finset.Icc (m + 1) j).image (keyAt L t)) ⊆ keys.filter (Near L (m + 1) (g - m)) := by
    intro k hk
    rw [Finset.mem_filter]
    obtain rfl | hk := Finset.mem_insert.mp hk
    · refine ⟨hc, g - m - 1, by omega, ?_⟩
      rwa [show m + 1 + (g - m - 1) = g by omega]
    · obtain ⟨x, hx, rfl⟩ := Finset.mem_image.mp hk
      rw [Finset.mem_Icc] at hx
      exact ⟨hkeys _ ⟨x, htaken x (by omega) hx.2, rfl⟩, hnear x (by omega) hx.2⟩
  have hcard := Finset.card_le_card hsub
  rw [Finset.card_insert_of_notMem hnotin, Finset.card_image_of_injOn hinj, Nat.card_Icc] at hcard
  have hbound := hspread (m + 1) (g - m) (by omega)
  omega

end Crowding

section Removal

variable (L) in
/-- The slot at the position `i + 1` counts as empty, although the one behind it may be further than one slot
from its home. -/
structure Hole (t : Nat → σ) (i : Nat) : Prop where
  placed : ∀ j, ¬ j ≡ i + 1 [MOD L.len] → distAt L t j ≠ 0 → L.home (keyAt L t j) + distAt L t j ≡ j + 1 [MOD L.len]
  step : ∀ j, ¬ j ≡ i [MOD L.len] → ¬ j ≡ i + 1 [MOD L.len] → distAt L t (j + 1) ≤ distAt L t j + 1
  gap : distAt L t (i + 2) ≤ distAt L t i + 2
  inj : ∀ j k, ¬ j ≡ i + 1 [MOD L.len] → ¬ k ≡ i + 1 [MOD L.len] → distAt L t j ≠ 0 → distAt L t k ≠ 0 →
    keyAt L t j = keyAt L t k → j ≡ k [MOD L.len]

variable (L) in
/-- The entry lies in a slot other than the hole. -/
def StoredApart (t : Nat → σ) (i : Nat) (e : ε) : Prop :=
  ∃ j, ¬ j ≡ i + 1 [MOD L.len] ∧ distAt L t j ≠ 0 ∧ L.entry (slot L t j) = e

theorem Valid.hole (h : Valid L t) (i : Nat) : Hole L t i where
  placed := fun j _ => h.placed j
  step := fun j _ _ => h.step j
  gap := h.dist_add i 2
  inj := fun j k _ _ => h.inj j k

/-- Taking one entry away leaves the entries with other keys. -/
theorem Valid.storedApart (h : Valid L t) {i : Nat} (hi : distAt L t (i + 1) ≠ 0) (e : ε) :
    StoredApart L t i e ↔ Stored L t e ∧ L.key e ≠ keyAt L t (i + 1) := by
  constructor
  · rintro ⟨j, hji, hj, rfl⟩
    exact ⟨⟨j, hj, rfl⟩, fun hkey => hji (h.inj j (i + 1) hj hi hkey)⟩
  · rintro ⟨⟨j, hj, rfl⟩, hkey⟩
    refine ⟨j, fun hji => hkey ?_, hj, rfl⟩
    rw [keyAt, slot_congr hji]

/-- The hole is closed when the entry behind it is at home, or there is none. -/
theorem Hole.close {i : Nat} (h : Hole L t i) (hnext : distAt L t (i + 2) ≤ 1) {s : σ}
    (hs : L.psl s = 0) : Valid L (Function.update t ((i + 1) % L.len) s) := by
  have hzero : ∀ j, j ≡ i + 1 [MOD L.len] → distAt L (Function.update t ((i + 1) % L.len) s) j = 0 := by
    intro j hji
    rw [distAt, slot_update, if_pos hji, hs]
  refine ⟨fun j hj => ?_, fun j => ?_, fun j k hj hk heq => ?_⟩
  · have hji : ¬ j ≡ i + 1 [MOD L.len] := fun hji => hj (hzero j hji)
    rw [distAt, slot_update_of_not s hji] at hj ⊢
    rw [keyAt, slot_update_of_not s hji]
    exact h.placed j hji hj
  · by_cases hj1 : j + 1 ≡ i + 1 [MOD L.len]
    · rw [hzero _ hj1]
      exact Nat.zero_le _
    · by_cases hji : j ≡ i + 1 [MOD L.len]
      · have hcongr : distAt L t (j + 1) = distAt L t (i + 2) := dist_congr (Nat.ModEq.add_right 1 hji)
        rw [hzero j hji, distAt, slot_update_of_not s hj1]
        rw [distAt] at hcongr
        omega
      · rw [distAt, distAt, slot_update_of_not s hj1, slot_update_of_not s hji]
        exact h.step j (fun hj => hj1 (Nat.ModEq.add_right 1 hj)) hji
  · have hji : ¬ j ≡ i + 1 [MOD L.len] := fun hji => hj (hzero j hji)
    have hki : ¬ k ≡ i + 1 [MOD L.len] := fun hki => hk (hzero k hki)
    rw [distAt, slot_update_of_not s hji] at hj
    rw [distAt, slot_update_of_not s hki] at hk
    rw [keyAt, keyAt, slot_update_of_not s hji, slot_update_of_not s hki] at heq
    exact h.inj j k hji hki hj hk heq

theorem stored_close {i : Nat} {s : σ} (hs : L.psl s = 0) (e : ε) :
    Stored L (Function.update t ((i + 1) % L.len) s) e ↔ StoredApart L t i e := by
  constructor
  · rintro ⟨j, hj, rfl⟩
    have hji : ¬ j ≡ i + 1 [MOD L.len] := by
      intro hji
      rw [distAt, slot_update, if_pos hji, hs] at hj
      exact hj rfl
    rw [distAt, slot_update_of_not s hji] at hj
    exact ⟨j, hji, hj, by rw [slot_update_of_not s hji]⟩
  · rintro ⟨j, hji, hj, rfl⟩
    exact ⟨j, by rwa [distAt, slot_update_of_not s hji], by rw [slot_update_of_not s hji]⟩

/-- The entry behind the hole moves into it, and leaves a hole. -/
theorem Hole.shift {i : Nat} (h : Hole L t i) (hlen : 3 ≤ L.len) (hnext : 1 < distAt L t (i + 2)) {s : σ}
    (hs : L.psl s + 1 = distAt L t (i + 2)) (he : L.entry s = L.entry (slot L t (i + 2))) :
    Hole L (Function.update t ((i + 1) % L.len) s) (i + 1) := by
  have hapart : ¬ i + 2 ≡ i + 1 [MOD L.len] := not_modEq (by omega) (by omega)
  have hbefore : ¬ i ≡ i + 1 [MOD L.len] := fun hmod => not_modEq (Nat.lt_succ_self i) (by omega) hmod.symm
  have hself : ∀ j, j ≡ i + 1 [MOD L.len] → slot L (Function.update t ((i + 1) % L.len) s) j = s := by
    intro j hji
    rw [slot_update, if_pos hji]
  refine ⟨fun j hji2 hj => ?_, fun j hj1 hj2 => ?_, ?_, fun j k hji2 hki2 hj hk heq => ?_⟩
  · by_cases hji : j ≡ i + 1 [MOD L.len]
    · have hplaced := h.placed (i + 2) hapart (by omega)
      rw [distAt, keyAt, hself j hji, he]
      apply Nat.ModEq.add_right_cancel' 1
      rw [Nat.add_assoc, hs]
      exact hplaced.trans (Nat.ModEq.add_right 2 hji.symm)
    · rw [distAt, slot_update_of_not s hji] at hj ⊢
      rw [keyAt, slot_update_of_not s hji]
      exact h.placed j hji hj
  · rw [distAt, distAt, slot_update_of_not s hj1]
    by_cases hj1' : j + 1 ≡ i + 1 [MOD L.len]
    · have hji : j ≡ i [MOD L.len] := Nat.ModEq.add_right_cancel' 1 hj1'
      have hgap := h.gap
      rw [hself _ hj1', slot_congr hji]
      simp only [distAt] at hgap hs
      omega
    · rw [slot_update_of_not s hj1']
      exact h.step j (fun hji => hj1' (Nat.ModEq.add_right 1 hji)) hj1
  · have hthird : ¬ i + 1 + 2 ≡ i + 1 [MOD L.len] := not_modEq (by omega) (by omega)
    have hstep := h.step (i + 2) (not_modEq (by omega) (by omega)) hapart
    have hcomm : i + 1 + 2 = i + 2 + 1 := by omega
    simp only [distAt] at hs hstep ⊢
    rw [slot_update_of_not s hthird, hself _ (Nat.ModEq.refl _), hcomm]
    omega
  · have hmoved : ∀ x, ¬ x ≡ i + 2 [MOD L.len] → distAt L (Function.update t ((i + 1) % L.len) s) x ≠ 0 →
        ∃ y, ¬ y ≡ i + 1 [MOD L.len] ∧ distAt L t y ≠ 0 ∧
          keyAt L (Function.update t ((i + 1) % L.len) s) x = keyAt L t y ∧
          (x ≡ i + 1 [MOD L.len] ∧ y = i + 2 ∨ ¬ x ≡ i + 1 [MOD L.len] ∧ y = x) := by
      intro x hx2 hx
      by_cases hxi : x ≡ i + 1 [MOD L.len]
      · refine ⟨i + 2, hapart, by omega, ?_, Or.inl ⟨hxi, rfl⟩⟩
        rw [keyAt, hself x hxi, he, keyAt]
      · rw [distAt, slot_update_of_not s hxi] at hx
        refine ⟨x, hxi, hx, ?_, Or.inr ⟨hxi, rfl⟩⟩
        rw [keyAt, slot_update_of_not s hxi, keyAt]
    obtain ⟨y, hy1, hy, hykey, hycase⟩ := hmoved j hji2 hj
    obtain ⟨z, hz1, hz, hzkey, hzcase⟩ := hmoved k hki2 hk
    have hyz := h.inj y z hy1 hz1 hy hz (hykey.symm.trans (heq.trans hzkey))
    obtain ⟨hj1, rfl⟩ | ⟨hj1, rfl⟩ := hycase
    · obtain ⟨hk1, rfl⟩ | ⟨hk1, rfl⟩ := hzcase
      · exact hj1.trans hk1.symm
      · exact absurd hyz.symm hki2
    · obtain ⟨hk1, rfl⟩ | ⟨hk1, rfl⟩ := hzcase
      · exact absurd hyz hji2
      · exact hyz

theorem storedApart_shift {i : Nat} (hlen : 3 ≤ L.len) (hnext : 1 < distAt L t (i + 2)) {s : σ}
    (hs : L.psl s + 1 = distAt L t (i + 2)) (he : L.entry s = L.entry (slot L t (i + 2))) (e : ε) :
    StoredApart L (Function.update t ((i + 1) % L.len) s) (i + 1) e ↔ StoredApart L t i e := by
  have hapart : ¬ i + 2 ≡ i + 1 [MOD L.len] := not_modEq (by omega) (by omega)
  constructor
  · rintro ⟨j, hji2, hj, rfl⟩
    by_cases hji : j ≡ i + 1 [MOD L.len]
    · refine ⟨i + 2, hapart, by omega, ?_⟩
      rw [slot_update, if_pos hji, he]
    · rw [distAt, slot_update_of_not s hji] at hj
      exact ⟨j, hji, hj, by rw [slot_update_of_not s hji]⟩
  · rintro ⟨j, hji, hj, rfl⟩
    by_cases hji2 : j ≡ i + 2 [MOD L.len]
    · refine ⟨i + 1, fun h => hapart h.symm, ?_, ?_⟩
      · rw [distAt, slot_update_self]
        omega
      · rw [slot_update_self, he, slot_congr hji2]
    · exact ⟨j, hji2, by rwa [distAt, slot_update_of_not s hji], by rw [slot_update_of_not s hji]⟩

end Removal

section Counting

/-- The keys of the slots, of which there are as many as taken slots. -/
theorem Valid.card_keys [DecidableEq κ] (h : Valid L t) :
    (((Finset.range L.len).filter (fun i => distAt L t i ≠ 0)).image (keyAt L t)).card =
      ((Finset.range L.len).filter (fun i => distAt L t i ≠ 0)).card := by
  apply Finset.card_image_of_injOn
  intro i hi j hj heq
  simp only [Finset.coe_filter, Finset.mem_range, Set.mem_ofPred_eq] at hi hj
  exact Nat.ModEq.eq_of_lt_of_lt (h.inj i j hi.2 hj.2 heq) hi.1 hj.1

/-- With fewer keys than slots, one slot is empty. -/
theorem Valid.exists_empty (h : Valid L t) {keys : Finset κ} (hkeys : ∀ e, Stored L t e → L.key e ∈ keys)
    (hcard : keys.card < L.len) : ∃ i < L.len, distAt L t i = 0 := by
  classical
  by_contra hfull
  push Not at hfull
  have hall : (Finset.range L.len).filter (fun i => distAt L t i ≠ 0) = Finset.range L.len := by
    apply Finset.filter_true_of_mem
    intro i hi
    exact hfull i (Finset.mem_range.mp hi)
  have hsub : ((Finset.range L.len).filter (fun i => distAt L t i ≠ 0)).image (keyAt L t) ⊆ keys := by
    intro k hk
    obtain ⟨i, hi, rfl⟩ := Finset.mem_image.mp hk
    exact hkeys _ ⟨i, (Finset.mem_filter.mp hi).2, rfl⟩
  have hle := Finset.card_le_card hsub
  rw [h.card_keys, hall, Finset.card_range] at hle
  omega

end Counting

end Zngtcp2.Lib.RobinHood
