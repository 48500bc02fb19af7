import Mathlib.Data.Finmap
import Zngtcp2.Lib.RobinHood
import Zngtcp2.HashMap.Model

namespace Zngtcp2.HashMap

open Lib.RobinHood (Layout Valid Stored Carried Spread slot distAt keyAt dist_congr slot_update_of_not
  stored_update_empty stored_update_swap)

variable {α : Type}

/-- The finite map that a hash map stands for. -/
abbrev Contents (α : Type) := Finmap (fun _ : Nat => α)

/-- How the arrays are read as a table. -/
def layout (α : Type) (seed hashbits : Nat) : Layout (Slot α) (Nat × Option α) Nat where
  psl := Slot.psl
  entry := fun s => (s.key, s.data)
  key := Prod.fst
  len := tablelen hashbits
  home := mapIndex seed hashbits

abbrev Map.layout (map : Map α) : Layout (Slot α) (Nat × Option α) Nat :=
  HashMap.layout α map.seed map.hashbits

/-- The most keys of `n` slots in a row beyond `n` for which all distances fit into 8 bits. -/
def slack : Nat := 254

/-- The map holds the contents, and every distance is as it should be. -/
structure Tracks (map : Map α) (f : Contents α) : Prop where
  valid : Valid map.layout map.slots
  stored : ∀ e, Stored map.layout map.slots e ↔ ∃ d, e.2 = some d ∧ f.lookup e.1 = some d
  psl_lt : ∀ i, (map.slots i).psl < 256
  size : map.size = f.keys.card
  load : map.size < tablelen map.hashbits
  hashbits_le : map.hashbits ≤ maxHashbits
  spread : Spread map.layout slack f.keys

theorem tablelen_pos (hashbits : Nat) : 0 < tablelen hashbits :=
  Nat.two_pow_pos hashbits

theorem mapIndex_lt (seed key : Nat) {hashbits : Nat} (h : hashbits ≤ maxHashbits) :
    mapIndex seed hashbits key < tablelen hashbits := by
  rw [maxHashbits] at h
  apply Nat.div_lt_of_lt_mul
  rw [tablelen, ← Nat.pow_add, Nat.sub_add_cancel (by omega)]
  exact Nat.mod_lt _ (Nat.two_pow_pos 64)

namespace Tracks

variable {map : Map α} {f : Contents α}

theorem mem_of_stored (h : Tracks map f) (e : Nat × Option α) (he : Stored map.layout map.slots e) : e.1 ∈ f.keys := by
  obtain ⟨d, -, hd⟩ := (h.stored e).mp he
  exact Finmap.mem_keys.mpr (Finmap.mem_iff.mpr ⟨d, hd⟩)

theorem exists_empty (h : Tracks map f) : ∃ i < tablelen map.hashbits, distAt map.layout map.slots i = 0 :=
  h.valid.exists_empty h.mem_of_stored (h.size ▸ h.load)

/-- The slots from the home of a key of the map to the key are taken by other keys that are as far from
home. -/
theorem exists_probe (h : Tracks map f) {key : Nat} {d : α} (hkey : f.lookup key = some d) :
    ∃ p, p + 1 < tablelen map.hashbits ∧ p + 1 < 256 ∧
      (∀ m < p, 1 + m ≤ (slot map.layout map.slots (mapIndex map.seed map.hashbits key + m)).psl ∧
        (slot map.layout map.slots (mapIndex map.seed map.hashbits key + m)).key ≠ key) ∧
      slot map.layout map.slots (mapIndex map.seed map.hashbits key + p) = ⟨p + 1, key, some d⟩ := by
  obtain ⟨i, hi, hentry⟩ := (h.stored (key, some d)).mpr ⟨d, rfl, hkey⟩
  have hkeyAt : keyAt map.layout map.slots i = key := congrArg Prod.fst hentry
  obtain ⟨e, -, he⟩ := h.exists_empty
  obtain ⟨p, hp⟩ := Nat.exists_eq_succ_of_ne_zero hi
  have hlt : distAt map.layout map.slots i < tablelen map.hashbits := h.valid.dist_lt he (tablelen_pos _) i
  have hend : mapIndex map.seed map.hashbits key + p ≡ i [MOD map.layout.len] := by
    have hhome := h.valid.home_modEq hi
    rwa [hp, hkeyAt] at hhome
  have hpsl : distAt map.layout map.slots i < 256 := h.psl_lt _
  refine ⟨p, by omega, by omega, fun m hm => ?_, ?_⟩
  · have hprobe := h.valid.probe hi (show m < distAt map.layout map.slots i by omega)
    rw [hkeyAt] at hprobe
    refine ⟨by rw [Nat.add_comm]; exact hprobe, fun hkey' => ?_⟩
    have hpos : distAt map.layout map.slots (mapIndex map.seed map.hashbits key + m) ≠ 0 := by
      rw [Nat.succ_eq_add_one] at hp
      exact Nat.ne_of_gt (Nat.lt_of_lt_of_le (Nat.succ_pos m) hprobe)
    have hmod := h.valid.inj _ i hpos hi (hkey'.trans hkeyAt.symm)
    have hapart : ¬ mapIndex map.seed map.hashbits key + p ≡ mapIndex map.seed map.hashbits key + m
        [MOD map.layout.len] :=
      Lib.RobinHood.not_modEq (by omega) (by change _ < _ + tablelen _; omega)
    exact hapart (hend.trans hmod.symm)
  · have hdata : (slot map.layout map.slots i).data = some d := congrArg Prod.snd hentry
    rw [Lib.RobinHood.slot_congr hend]
    exact Slot.ext hp hkeyAt hdata

end Tracks

section Insertion

theorem psl_lt_update {slots : Nat → Slot α} (h : ∀ i, (slots i).psl < 256) {idx : Nat} {s : Slot α}
    (hs : s.psl < 256) (i : Nat) : (Function.update slots idx s i).psl < 256 := by
  by_cases hi : i = idx
  · subst hi
    rwa [Function.update_self]
  · rw [Function.update_of_ne hi]
    exact h i

theorem insertLoop_place {map : Map α} {idx : Nat} (h : (map.slots idx).psl = 0) (fuel key : Nat) (data : Option α)
    (psl : Nat) : insertLoop (fuel + 1) map idx key data psl =
      .ok (some idx, { mapSetEntry map idx key data psl with size := map.size + 1 }) := by
  rw [insertLoop]
  exact if_pos h

theorem insertLoop_swap {map : Map α} {idx psl : Nat} {s : Slot α} (hs : map.slots idx = s) (h : s.psl ≠ 0)
    (hlt : s.psl < psl) (fuel key : Nat) (data : Option α) :
    insertLoop (fuel + 1) map idx key data psl =
      insertLoop fuel (mapSetEntry map idx key data psl) ((idx + 1) % tablelen map.hashbits) s.key s.data (s.psl + 1) := by
  subst hs
  rw [insertLoop]
  exact (if_neg h).trans (if_pos hlt)

/-- Rounds in which the slot belongs to another key that is at least as far from its home. -/
theorem insertLoop_skip {map : Map α} {key : Nat} (data : Option α) {i q : Nat} (n : Nat) (hq : 0 < q)
    (h : ∀ m < n, q + m ≤ (slot map.layout map.slots (i + m)).psl ∧ (slot map.layout map.slots (i + m)).key ≠ key)
    (fuel : Nat) :
    insertLoop (fuel + n) map (i % tablelen map.hashbits) key data q =
      insertLoop fuel map ((i + n) % tablelen map.hashbits) key data (q + n) := by
  induction n generalizing i q with
  | zero => rfl
  | succ n ih =>
      obtain ⟨hle, hne⟩ := h 0 (Nat.succ_pos n)
      have hslot : slot map.layout map.slots (i + 0) = map.slots (i % tablelen map.hashbits) := rfl
      rw [hslot] at hle hne
      rw [← Nat.add_assoc, insertLoop]
      dsimp only
      rw [if_neg (by omega), if_neg (by omega), if_neg hne, Nat.mod_add_mod, ih (Nat.succ_pos q) fun m hm => ?_,
        show i + 1 + n = i + (n + 1) by omega, show q + 1 + n = q + (n + 1) by omega]
      have hm := h (m + 1) (Nat.succ_lt_succ hm)
      rw [show i + (m + 1) = i + 1 + m by omega, show q + (m + 1) = q + 1 + m by omega] at hm
      exact hm

/-- The loop puts the carried entry and those that it drives out where they belong. -/
theorem insertLoop_carried {map : Map α} {keys : Finset Nat} {i q n : Nat} {key : Nat} (data : Option α) {fuel : Nat}
    (hcarried : Carried map.layout map.slots i key q) (hlen : 2 ≤ tablelen map.hashbits)
    (hpsl : ∀ i, (map.slots i).psl < 256) (hempty : distAt map.layout map.slots (i + 1 + n) = 0) (hn : n < fuel)
    (hkeys : ∀ e, Stored map.layout map.slots e → e.1 ∈ keys) (hkey : key ∈ keys)
    (hspread : Spread map.layout slack keys) :
    ∃ idx map', insertLoop fuel map ((i + 1) % tablelen map.hashbits) key data q = .ok (some idx, map') ∧
      map'.seed = map.seed ∧ map'.hashbits = map.hashbits ∧ map'.size = map.size + 1 ∧
      Valid map.layout map'.slots ∧ (∀ i, (map'.slots i).psl < 256) ∧
      ∀ e, Stored map.layout map'.slots e ↔ Stored map.layout map.slots e ∨ e = (key, data) := by
  induction fuel generalizing map i q n key data with
  | zero => exact absurd hn (Nat.not_lt_zero n)
  | succ fuel ih =>
      have hq : q % 256 = q := by
        apply Nat.mod_eq_of_lt
        have hle := hcarried.le_of_spread hempty (tablelen_pos map.hashbits) hkeys hkey hspread
        rw [slack] at hle
        omega
      have hslot : distAt map.layout map.slots (i + 1) = (map.slots ((i + 1) % tablelen map.hashbits)).psl := rfl
      by_cases hzero : (map.slots ((i + 1) % tablelen map.hashbits)).psl = 0
      · rw [insertLoop_place hzero]
        refine ⟨_, _, rfl, rfl, rfl, rfl, ?_, ?_, fun e => ?_⟩
        · exact hcarried.valid_update hlen (by rw [hslot, hzero]; exact hcarried.pos) hq rfl
        · exact psl_lt_update hpsl (Nat.mod_lt _ (by omega))
        · apply stored_update_empty (by rw [hslot, hzero])
          change q % 256 ≠ 0
          rw [hq]
          exact Nat.ne_of_gt hcarried.pos
      · -- the empty slot is further on
        obtain ⟨n, rfl⟩ : ∃ n', n = n' + 1 := by
          cases n with
          | zero => exact absurd hempty hzero
          | succ n => exact ⟨n, rfl⟩
        rw [show i + 1 + (n + 1) = i + 1 + 1 + n by omega] at hempty
        by_cases hlt : (map.slots ((i + 1) % tablelen map.hashbits)).psl < q
        · rw [insertLoop_swap rfl hzero hlt, Nat.mod_add_mod]
          let s : Slot α := ⟨q % 256, key, data⟩
          have hs : map.layout.psl s ≠ 0 := by
            change q % 256 ≠ 0
            rw [hq]
            exact Nat.ne_of_gt hcarried.pos
          have hswap := @stored_update_swap _ _ _ map.layout map.slots (i + 1) hzero s hs
          have hold : (map.layout.entry (slot map.layout map.slots (i + 1))).1 ∈ keys := hkeys _ ⟨i + 1, hzero, rfl⟩
          have hempty' : distAt map.layout (Function.update map.slots ((i + 1) % tablelen map.hashbits) s)
              (i + 1 + 1 + n) = 0 := by
            have hne : ¬ i + 1 + 1 + n ≡ i + 1 [MOD map.layout.len] :=
              fun hmod => hzero ((dist_congr hmod).symm.trans hempty)
            exact (congrArg Slot.psl (slot_update_of_not s hne)).trans hempty
          have hkeys' : ∀ e, Stored map.layout (Function.update map.slots ((i + 1) % tablelen map.hashbits) s) e →
              e.1 ∈ keys := by
            intro e he
            obtain he | rfl := (hswap e).mp (Or.inl he)
            · exact hkeys e he
            · exact hkey
          obtain ⟨idx, map', hloop, hseed, hbits, hsize, hvalid, hpsl', hstored⟩ :=
            @ih (mapSetEntry map ((i + 1) % tablelen map.hashbits) key data q) (i + 1) _ n _ _
              (hcarried.swap hlen hzero hlt hq rfl) hlen (psl_lt_update hpsl (Nat.mod_lt _ (by omega))) hempty'
              (by omega) hkeys' hold hspread
          exact ⟨idx, map', hloop, hseed, hbits, hsize, hvalid, hpsl', fun e => (hstored e).trans (hswap e)⟩
        · have hne : (map.slots ((i + 1) % tablelen map.hashbits)).key ≠ key := hcarried.fresh _ ⟨i + 1, hzero, rfl⟩
          rw [insertLoop]
          dsimp only
          rw [if_neg hzero, if_neg hlt, if_neg hne, Nat.mod_add_mod]
          exact ih data (hcarried.pass (Nat.not_lt.mp hlt)) hlen hpsl hempty (by omega) hkeys hkey hspread

/-- A key that is not in the map yet is added. -/
theorem Tracks.mapInsert_new {map : Map α} {f : Contents α} (h : Tracks map f) {key : Nat} (hkey : key ∉ f) (d : α)
    (hsize : map.size + 1 < tablelen map.hashbits) (hspread : Spread map.layout slack (insert key f.keys)) :
    ∃ idx map', mapInsert map key (some d) = .ok (some idx, map') ∧ map'.seed = map.seed ∧
      map'.hashbits = map.hashbits ∧ Tracks map' (f.insert key d) := by
  obtain ⟨e, -, he⟩ := h.exists_empty
  have hlen := tablelen_pos map.hashbits
  have hindex := mapIndex_lt map.seed key h.hashbits_le
  -- a turn further on there is a position before the home
  let i := mapIndex map.seed map.hashbits key + tablelen map.hashbits - 1
  have hi : i + 1 = mapIndex map.seed map.hashbits key + tablelen map.hashbits := by omega
  have hhome : map.layout.home key ≡ i + 1 [MOD map.layout.len] := by
    rw [hi]
    exact (Lib.RobinHood.add_len _).symm
  obtain ⟨n, hn, hempty⟩ := Lib.RobinHood.exists_empty_ahead he hlen (i + 1)
  have hfresh : ∀ e, Stored map.layout map.slots e → map.layout.key e ≠ key := by
    intro e he heq
    have hmem := h.mem_of_stored e he
    rw [show e.1 = key from heq] at hmem
    exact hkey (Finmap.mem_keys.mp hmem)
  have hkeys : ∀ e, Stored map.layout map.slots e → e.1 ∈ insert key f.keys :=
    fun e he => Finset.mem_insert_of_mem (h.mem_of_stored e he)
  obtain ⟨idx, map', hloop, hseed, hbits, hsize', hvalid, hpsl, hstored⟩ :=
    insertLoop_carried (some d) (Carried.start h.valid hfresh hhome) (by omega) h.psl_lt hempty hn hkeys
      (Finset.mem_insert_self key f.keys) hspread
  have hlayout : map'.layout = map.layout := by
    rw [Map.layout, Map.layout, hseed, hbits]
  have hkeys' : (f.insert key d).keys = insert key f.keys := by
    ext k
    rw [Finmap.mem_keys, Finmap.mem_insert, Finset.mem_insert, Finmap.mem_keys]
  refine ⟨idx, map', ?_, hseed, hbits, ⟨hlayout ▸ hvalid, fun e => ?_, hpsl, ?_, ?_, ?_, ?_⟩⟩
  · rw [mapInsert, ← hloop, hi, Nat.add_mod_right, Nat.mod_eq_of_lt hindex]
    rfl
  · rw [hlayout, hstored, h.stored]
    by_cases he : e.1 = key
    · constructor
      · rintro (⟨d', hd', hlookup⟩ | rfl)
        · rw [he] at hlookup
          exact absurd (Finmap.mem_iff.mpr ⟨d', hlookup⟩) hkey
        · exact ⟨d, rfl, Finmap.lookup_insert f⟩
      · rintro ⟨d', hd', hlookup⟩
        rw [he, Finmap.lookup_insert, Option.some.injEq] at hlookup
        exact Or.inr (Prod.ext he (hd'.trans (congrArg some hlookup.symm)))
    · have hne : e ≠ (key, some d) := fun heq => he (congrArg Prod.fst heq)
      rw [or_iff_left hne]
      simp only [Finmap.lookup_insert_of_ne f he]
  · rw [hsize', h.size, hkeys', Finset.card_insert_of_notMem (fun hmem => hkey (Finmap.mem_keys.mp hmem))]
  · rw [hsize', hbits]
    exact hsize
  · rw [hbits]
    exact h.hashbits_le
  · rw [hlayout, hkeys']
    exact hspread

/-- A key that is in the map is found before anything is moved. -/
theorem Tracks.mapInsert_dup {map : Map α} {f : Contents α} (h : Tracks map f) {key : Nat} (hkey : key ∈ f)
    (data : Option α) : mapInsert map key data = .ok (none, map) := by
  obtain ⟨d, hd⟩ := Finmap.mem_iff.mp hkey
  obtain ⟨p, hlt, -, hskip, hslot⟩ := h.exists_probe hd
  have hslot' : map.slots ((mapIndex map.seed map.hashbits key + p) % tablelen map.hashbits) = ⟨p + 1, key, some d⟩ :=
    hslot
  have hfuel : tablelen map.hashbits = tablelen map.hashbits - p - 1 + 1 + p := by omega
  have hloop := insertLoop_skip data p Nat.zero_lt_one hskip (tablelen map.hashbits - p - 1 + 1)
  rw [Nat.mod_eq_of_lt (mapIndex_lt _ _ h.hashbits_le), ← hfuel] at hloop
  rw [mapInsert, hloop, insertLoop, hslot']
  dsimp only
  rw [if_neg (Nat.succ_ne_zero p), if_neg (by omega), if_pos rfl]

end Insertion

end Zngtcp2.HashMap
