import Zngtcp2.HashMap.Insert

namespace Zngtcp2.HashMap

open Lib.RobinHood (Valid Stored Spread Near slot distAt keyAt)

variable {α : Type}

section Doubling

theorem tablelen_succ (hashbits : Nat) : tablelen (hashbits + 1) = 2 * tablelen hashbits := by
  rw [tablelen, tablelen, Nat.pow_succ, Nat.mul_comm]

/-- A table of twice the size splits each index in two. -/
theorem mapIndex_succ (seed key : Nat) {hashbits : Nat} (h : hashbits < maxHashbits) :
    mapIndex seed hashbits key = mapIndex seed (hashbits + 1) key / 2 := by
  rw [maxHashbits] at h
  rw [mapIndex, mapIndex, Nat.div_div_eq_div_mul, ← Nat.pow_succ, show 64 - hashbits = (64 - (hashbits + 1)).succ by omega]

/-- Homes that are spread over a table are so over one of twice the size. -/
theorem spread_succ {seed hashbits : Nat} {keys : Finset Nat} (hbits : hashbits < maxHashbits)
    (h : Spread (layout α seed hashbits) slack keys) : Spread (layout α seed (hashbits + 1)) slack keys := by
  intro i n hn
  have hlen := tablelen_pos hashbits
  by_cases hzero : n = 0
  · subst hzero
    have hnone : keys.filter (Near (layout α seed (hashbits + 1)) i 0) = ∅ := by
      apply Finset.filter_false_of_mem
      rintro k - ⟨m, hm, -⟩
      exact Nat.not_lt_zero m hm
    rw [hnone]
    exact Nat.zero_le _
  · let n' := min ((i + n - 1) / 2 - i / 2 + 1) (tablelen hashbits)
    have hnear : ∀ k, Near (layout α seed (hashbits + 1)) i n k → Near (layout α seed hashbits) (i / 2) n' k := by
      rintro k ⟨m, hm, hmod⟩
      have hindex : mapIndex seed (hashbits + 1) k = (i + m) % (2 * tablelen hashbits) := by
        rw [← tablelen_succ, ← Nat.mod_eq_of_lt (mapIndex_lt seed k hbits)]
        exact hmod
      have hhalf : mapIndex seed hashbits k = (i + m) / 2 % tablelen hashbits := by
        rw [mapIndex_succ seed k hbits, hindex, Nat.mod_mul_right_div_self]
      refine ⟨((i + m) / 2 - i / 2) % tablelen hashbits, ?_, ?_⟩
      · apply Nat.lt_min.mpr
        refine ⟨Nat.lt_of_le_of_lt (Nat.mod_le _ _) ?_, Nat.mod_lt _ hlen⟩
        omega
      · change mapIndex seed hashbits k ≡ i / 2 + ((i + m) / 2 - i / 2) % tablelen hashbits [MOD tablelen hashbits]
        rw [hhalf]
        calc (i + m) / 2 % tablelen hashbits
            ≡ (i + m) / 2 [MOD tablelen hashbits] := Nat.mod_modEq _ _
          _ = i / 2 + ((i + m) / 2 - i / 2) := by omega
          _ ≡ i / 2 + ((i + m) / 2 - i / 2) % tablelen hashbits [MOD tablelen hashbits] :=
              Nat.ModEq.add_left _ (Nat.mod_modEq _ _).symm
    have hsub : keys.filter (Near (layout α seed (hashbits + 1)) i n) ⊆
        keys.filter (Near (layout α seed hashbits) (i / 2) n') := by
      intro k hk
      rw [Finset.mem_filter] at hk ⊢
      exact ⟨hk.1, hnear k hk.2⟩
    have hle := h (i / 2) n' (Nat.min_le_right _ _)
    have hn' : n' ≤ n := by
      apply (Nat.min_le_left _ _).trans
      omega
    exact (Finset.card_le_card hsub).trans (hle.trans (Nat.add_le_add_right hn' slack))

end Doubling

section Rehash

theorem spread_empty (seed hashbits : Nat) : Spread (layout α seed hashbits) slack ∅ := by
  intro i n _
  rw [Finset.filter_empty, Finset.card_empty]
  exact Nat.zero_le _

/-- A table in which no slot is used holds nothing. -/
theorem tracks_empty {map : Map α} (hpsl : ∀ i, distAt map.layout map.slots i = 0) (hlt : ∀ i, (map.slots i).psl < 256)
    (hsize : map.size = 0) (hbits : map.hashbits ≤ maxHashbits) : Tracks map ∅ where
  valid := ⟨fun i hi => absurd (hpsl i) hi, fun i => by
    rw [hpsl (i + 1)]
    exact Nat.zero_le _, fun i j hi => absurd (hpsl i) hi⟩
  stored := by
    intro e
    constructor
    · rintro ⟨i, hi, -⟩
      exact absurd (hpsl i) hi
    · rintro ⟨d, -, hd⟩
      rw [Finmap.lookup_empty] at hd
      cases hd
  psl_lt := hlt
  size := hsize
  load := by
    rw [hsize]
    exact tablelen_pos _
  hashbits_le := hbits
  spread := spread_empty _ _

/-- The map holds the entries of the slots at the given indices. -/
def Covers (slots : Nat → Slot α) (is : List Nat) (g : Contents α) : Prop :=
  ∀ k d, g.lookup k = some d ↔ ∃ i ∈ is, (slots i).psl ≠ 0 ∧ (slots i).key = k ∧ (slots i).data = some d

/-- Going on with the indices `is` completes the contents. -/
theorem rehash_spec {map : Map α} {f : Contents α} (h : Tracks map f) {seed hashbits : Nat}
    (hlen : tablelen map.hashbits ≤ tablelen hashbits) (hspread : Spread (layout α seed hashbits) slack f.keys)
    (is : List Nat) {done : List Nat} {new : Map α} {g : Contents α} (hseed : new.seed = seed) (hbits : new.hashbits = hashbits)
    (hnew : Tracks new g) (hcovers : Covers map.slots done g)
    (hlt : ∀ i ∈ done ++ is, i < tablelen map.hashbits) (hnodup : (done ++ is).Nodup) :
    ∃ new' g', rehash map.slots is new = .ok new' ∧ new'.seed = seed ∧ new'.hashbits = hashbits ∧ Tracks new' g' ∧
      Covers map.slots (done ++ is) g' := by
  induction is generalizing done new g with
  | nil =>
      rw [List.append_nil]
      exact ⟨new, g, rfl, hseed, hbits, hnew, hcovers⟩
  | cons i is ih =>
      have hassoc : done ++ i :: is = (done ++ [i]) ++ is := by
        rw [List.append_assoc, List.singleton_append]
      rw [hassoc] at hlt hnodup ⊢
      have hi : i < tablelen map.hashbits := hlt i (by simp)
      have hslot : slot map.layout map.slots i = map.slots i := congrArg map.slots (Nat.mod_eq_of_lt hi)
      by_cases hzero : (map.slots i).psl = 0
      · rw [rehash, if_pos hzero]
        apply ih hseed hbits hnew _ hlt hnodup
        intro k d
        rw [hcovers k d]
        constructor
        · rintro ⟨j, hj, hrest⟩
          exact ⟨j, List.mem_append_left _ hj, hrest⟩
        · rintro ⟨j, hj, hpsl, hrest⟩
          obtain hj | hj := List.mem_append.mp hj
          · exact ⟨j, hj, hpsl, hrest⟩
          · rw [List.mem_singleton] at hj
            subst hj
            exact absurd hzero hpsl
      · have hdist : distAt map.layout map.slots i ≠ 0 := by
          rw [distAt, hslot]
          exact hzero
        obtain ⟨d, hd, hlookup⟩ := (h.stored ((map.slots i).key, (map.slots i).data)).mp ⟨i, hdist, by rw [hslot]; rfl⟩
        have hkey : (map.slots i).key ∉ g := by
          intro hmem
          obtain ⟨d', hd'⟩ := Finmap.mem_iff.mp hmem
          obtain ⟨j, hj, hpsl, hkeyj, -⟩ := (hcovers _ d').mp hd'
          have hjlt : j < tablelen map.hashbits := hlt j (by simp [hj])
          have hslotj : slot map.layout map.slots j = map.slots j := congrArg map.slots (Nat.mod_eq_of_lt hjlt)
          have hmod := h.valid.inj j i (by rw [distAt, hslotj]; exact hpsl) hdist
            (by rw [keyAt, keyAt, hslotj, hslot]; exact hkeyj)
          have hji : j = i := Nat.ModEq.eq_of_lt_of_lt hmod hjlt hi
          subst hji
          rw [List.append_assoc, List.singleton_append] at hnodup
          exact (List.nodup_append.mp hnodup).2.2 j hj j List.mem_cons_self rfl
        have hsub : insert (map.slots i).key g.keys ⊆ f.keys := by
          intro k hk
          obtain rfl | hk := Finset.mem_insert.mp hk
          · exact Finmap.mem_keys.mpr (Finmap.mem_iff.mpr ⟨d, hlookup⟩)
          · obtain ⟨d', hd'⟩ := Finmap.mem_iff.mp (Finmap.mem_keys.mp hk)
            obtain ⟨j, hj, hpsl, rfl, hdata⟩ := (hcovers k d').mp hd'
            have hjlt : j < tablelen map.hashbits := hlt j (by simp [hj])
            have hslotj : slot map.layout map.slots j = map.slots j := congrArg map.slots (Nat.mod_eq_of_lt hjlt)
            exact h.mem_of_stored ((map.slots j).key, (map.slots j).data)
              ⟨j, by rw [distAt, hslotj]; exact hpsl, by rw [hslotj]; rfl⟩
        have hsize : new.size + 1 < tablelen new.hashbits := by
          have hcard := Finset.card_le_card hsub
          rw [Finset.card_insert_of_notMem (fun hmem => hkey (Finmap.mem_keys.mp hmem)), ← hnew.size, ← h.size] at hcard
          have hload := h.load
          rw [hbits]
          omega
        have hspread' : Spread new.layout slack (insert (map.slots i).key g.keys) := by
          rw [Map.layout, hseed, hbits]
          exact hspread.mono hsub
        obtain ⟨idx, new', hinsert, hseed', hbits', htracks⟩ := hnew.mapInsert_new hkey d hsize hspread'
        rw [rehash, if_neg hzero, show (map.slots i).data = some d from hd, hinsert]
        apply ih (hseed'.trans hseed) (hbits'.trans hbits) htracks _ hlt hnodup
        intro k d'
        by_cases hk : k = (map.slots i).key
        · subst hk
          rw [Finmap.lookup_insert, Option.some.injEq]
          constructor
          · rintro rfl
            exact ⟨i, by simp, hzero, rfl, hd⟩
          · rintro ⟨j, hj, hpsl, hkeyj, hdata⟩
            obtain hj | hj := List.mem_append.mp hj
            · exact absurd (Finmap.mem_iff.mpr ⟨d', (hcovers _ d').mpr ⟨j, hj, hpsl, hkeyj, hdata⟩⟩) hkey
            · rw [List.mem_singleton] at hj
              subst hj
              exact Option.some.inj (hd.symm.trans hdata)
        · rw [Finmap.lookup_insert_of_ne g hk, hcovers k d']
          constructor
          · rintro ⟨j, hj, hrest⟩
            exact ⟨j, List.mem_append_left _ hj, hrest⟩
          · rintro ⟨j, hj, hpsl, hkeyj, hdata⟩
            obtain hj | hj := List.mem_append.mp hj
            · exact ⟨j, hj, hpsl, hkeyj, hdata⟩
            · rw [List.mem_singleton] at hj
              subst hj
              exact absurd hkeyj.symm hk

/-- Resizing keeps the contents. -/
theorem Tracks.mapResize_spec {map : Map α} {f : Contents α} (h : Tracks map f) {newHashbits : Nat}
    (hle : map.hashbits ≤ newHashbits) (hbits : newHashbits ≤ maxHashbits)
    (hspread : Spread (layout α map.seed newHashbits) slack f.keys) :
    ∃ map', mapResize map newHashbits = .ok (.ok, map') ∧ map'.seed = map.seed ∧ map'.hashbits = newHashbits ∧
      map'.size = map.size ∧ Tracks map' f := by
  let new : Map α := { seed := map.seed, hashbits := newHashbits }
  have hnew : Tracks new ∅ := tracks_empty (fun _ => rfl) (fun _ => Nat.succ_pos 255) rfl hbits
  have hlen : tablelen map.hashbits ≤ tablelen newHashbits := Nat.pow_le_pow_right (by omega) hle
  have his : ∀ i ∈ resizeIndices map, i < tablelen map.hashbits := by
    intro i hi
    rw [resizeIndices] at hi
    split at hi
    · exact absurd hi List.not_mem_nil
    · exact List.mem_range.mp hi
  have hnodup : (resizeIndices map).Nodup := by
    rw [resizeIndices]
    split
    · exact List.nodup_nil
    · exact List.nodup_range
  have hcovers : Covers map.slots [] (∅ : Contents α) := by
    intro k d
    simp [Finmap.lookup_empty]
  obtain ⟨new', g, hrehash, hseed', hbits', hnew', hcovers'⟩ :=
    rehash_spec h hlen hspread (resizeIndices map) (show new.seed = map.seed from rfl) (show new.hashbits = newHashbits from rfl) hnew
      hcovers his hnodup
  -- all slots have been visited, so that the new table holds the same
  have hg : g = f := by
    apply Finmap.ext_lookup
    intro k
    apply Option.ext
    intro d
    rw [hcovers' k d, List.nil_append]
    constructor
    · rintro ⟨i, hi, hpsl, rfl, hdata⟩
      have hslot : slot map.layout map.slots i = map.slots i := congrArg map.slots (Nat.mod_eq_of_lt (his i hi))
      obtain ⟨d', hd', hlookup⟩ := (h.stored ((map.slots i).key, (map.slots i).data)).mp
        ⟨i, by rw [distAt, hslot]; exact hpsl, by rw [hslot]; rfl⟩
      rw [hdata, Option.some.injEq] at hd'
      rw [hlookup, hd']
    · intro hlookup
      have hsize : map.size ≠ 0 := by
        rw [h.size]
        exact Finset.card_ne_zero_of_mem (Finmap.mem_keys.mpr (Finmap.mem_iff.mpr ⟨d, hlookup⟩))
      obtain ⟨p, -, -, -, hslot⟩ := h.exists_probe hlookup
      refine ⟨_, ?_, ?_, congrArg Slot.key hslot, congrArg Slot.data hslot⟩
      · rw [resizeIndices, if_neg hsize, List.mem_range]
        exact Nat.mod_lt _ (tablelen_pos _)
      · rw [show (map.slots _).psl = p + 1 from congrArg Slot.psl hslot]
        exact Nat.succ_ne_zero p
  subst hg
  have hvalid := hnew'.valid
  have hstored := hnew'.stored
  rw [Map.layout, hseed', hbits'] at hvalid hstored
  refine ⟨{ map with slots := new'.slots, hashbits := newHashbits }, ?_, rfl, rfl, rfl, ?_⟩
  · rw [mapResize, if_neg (Nat.not_lt.mpr hbits), hrehash]
    rfl
  · exact ⟨hvalid, hstored, hnew'.psl_lt, h.size, Nat.lt_of_lt_of_le h.load hlen, hbits, hspread⟩

/-- The bits of the table into which a key is inserted: it is enlarged before when it is seven eighths full. -/
def targetHashbits (map : Map α) : Nat :=
  if tablelen map.hashbits - tablelen map.hashbits / 8 ≤ map.size + 1 then
    if map.hashbits ≠ 0 then map.hashbits + 1 else initialHashbits
  else map.hashbits

/-- Inserting adds a key that is not in the map, and rejects one that is. -/
theorem Tracks.insert_spec {map : Map α} {f : Contents α} (h : Tracks map f) (key : Nat) (d : α)
    (hspread : Spread (layout α map.seed (targetHashbits map)) slack (insert key f.keys)) :
    ∃ rv map', map.insert key d = .ok (rv, map') ∧
      (rv = .nomem ∨ key ∈ f ∧ rv = .invalidArgument ∧ Tracks map' f ∨
        key ∉ f ∧ rv = .ok ∧ Tracks map' (f.insert key d)) := by
  have hload := h.load
  rw [Map.insert]
  dsimp only
  rw [targetHashbits] at hspread
  by_cases hfull : tablelen map.hashbits - tablelen map.hashbits / 8 ≤ map.size + 1
  · rw [if_pos hfull] at hspread ⊢
    have htarget : map.hashbits + 1 ≤ if map.hashbits ≠ 0 then map.hashbits + 1 else initialHashbits := by
      split
      · exact Nat.le_refl _
      · rw [initialHashbits]
        omega
    generalize (if map.hashbits ≠ 0 then map.hashbits + 1 else initialHashbits) = target at hspread htarget ⊢
    by_cases hbits : target ≤ maxHashbits
    · obtain ⟨map₁, hresize, hseed, hbits₁, hsize, h₁⟩ := h.mapResize_spec (by omega) hbits
        (hspread.mono (Finset.subset_insert key f.keys))
      rw [hresize]
      simp only [bind, Except.bind]
      rw [if_neg (fun hne => hne rfl)]
      by_cases hkey : key ∈ f
      · rw [h₁.mapInsert_dup hkey]
        exact ⟨.invalidArgument, map₁, rfl, Or.inr (Or.inl ⟨hkey, rfl, h₁⟩)⟩
      · have hroom : map₁.size + 1 < tablelen map₁.hashbits := by
          have hdouble : tablelen (map.hashbits + 1) ≤ tablelen target := Nat.pow_le_pow_right (by omega) htarget
          rw [tablelen_succ] at hdouble
          rw [hsize, hbits₁]
          omega
        have hspread₁ : Spread map₁.layout slack (insert key f.keys) := by
          rw [Map.layout, hseed, hbits₁]
          exact hspread
        obtain ⟨idx, map₂, hinsert, -, -, h₂⟩ := h₁.mapInsert_new hkey d hroom hspread₁
        rw [hinsert]
        exact ⟨.ok, map₂, rfl, Or.inr (Or.inr ⟨hkey, rfl, h₂⟩)⟩
    · rw [mapResize, if_pos (Nat.not_le.mp hbits)]
      exact ⟨.nomem, map, rfl, Or.inl rfl⟩
  · rw [if_neg hfull] at hspread ⊢
    by_cases hkey : key ∈ f
    · rw [h.mapInsert_dup hkey]
      exact ⟨.invalidArgument, map, rfl, Or.inr (Or.inl ⟨hkey, rfl, h⟩)⟩
    · obtain ⟨idx, map₁, hinsert, hseed, hbits₁, h₁⟩ := h.mapInsert_new hkey d (by omega) hspread
      rw [hinsert]
      simp only [bind, Except.bind]
      by_cases hpsl : (map₁.slots idx).psl < maxPslResizeThresh + 1
      · rw [if_pos hpsl]
        exact ⟨.ok, map₁, rfl, Or.inr (Or.inr ⟨hkey, rfl, h₁⟩)⟩
      · rw [if_neg hpsl]
        by_cases hbits : map₁.hashbits + 1 ≤ maxHashbits
        · obtain ⟨map₂, hresize, -, -, -, h₂⟩ := h₁.mapResize_spec (Nat.le_succ _) hbits (spread_succ hbits h₁.spread)
          exact ⟨.ok, map₂, hresize, Or.inr (Or.inr ⟨hkey, rfl, h₂⟩)⟩
        · rw [mapResize, if_pos (Nat.not_le.mp hbits)]
          exact ⟨.nomem, map₁, rfl, Or.inl rfl⟩

end Rehash

open Lib.RobinHood (StoredApart Hole dist_congr slot_congr slot_update_of_not not_modEq)

section Probing

variable {β : Type} {map : Map α} {f : Contents α} {absent : Except Stop β} {found : Nat → Except Stop β}

variable (absent found) in
theorem probeLoop_skip {key i q : Nat} (n : Nat)
    (h : ∀ m < n, q + m ≤ (slot map.layout map.slots (i + m)).psl ∧ (slot map.layout map.slots (i + m)).key ≠ key)
    (fuel : Nat) :
    probeLoop map absent found (fuel + n) (i % tablelen map.hashbits) key q =
      probeLoop map absent found fuel ((i + n) % tablelen map.hashbits) key (q + n) := by
  induction n generalizing i q with
  | zero => rfl
  | succ n ih =>
      obtain ⟨hle, hne⟩ := h 0 (Nat.succ_pos n)
      have hslot : slot map.layout map.slots (i + 0) = map.slots (i % tablelen map.hashbits) := rfl
      rw [hslot] at hle hne
      rw [← Nat.add_assoc, probeLoop, if_neg (by omega), if_neg hne, Nat.mod_add_mod, ih fun m hm => ?_,
        show i + 1 + n = i + (n + 1) by omega, show q + 1 + n = q + (n + 1) by omega]
      have hm := h (m + 1) (Nat.succ_lt_succ hm)
      rw [show i + (m + 1) = i + 1 + m by omega, show q + (m + 1) = q + 1 + m by omega] at hm
      exact hm

variable (absent found) in
/-- A key of the map is found. -/
theorem Tracks.probeLoop_found (h : Tracks map f) {key : Nat} {d : α} (hkey : f.lookup key = some d) :
    ∃ i p, slot map.layout map.slots i = ⟨p + 1, key, some d⟩ ∧
      probeLoop map absent found 256 (mapIndex map.seed map.hashbits key) key 1 =
        found (i % tablelen map.hashbits) := by
  obtain ⟨p, -, hlt, hskip, hslot⟩ := h.exists_probe hkey
  have hloop := probeLoop_skip absent found p hskip (256 - p - 1 + 1)
  have hslot' : map.slots ((mapIndex map.seed map.hashbits key + p) % tablelen map.hashbits) = ⟨p + 1, key, some d⟩ :=
    hslot
  rw [Nat.mod_eq_of_lt (mapIndex_lt _ _ h.hashbits_le), show 256 - p - 1 + 1 + p = 256 by omega] at hloop
  refine ⟨_, p, hslot, ?_⟩
  rw [hloop, probeLoop, hslot', if_neg (by dsimp only; omega), if_pos rfl]

/-- The search for another key ends, since no distance reaches 256. -/
theorem Tracks.probeLoop_absent (h : Tracks map f) {key : Nat} (hkey : key ∉ f) {fuel q : Nat} (hq : 0 < q)
    (hfuel : 256 < q + fuel) (hpos : 0 < fuel) (i : Nat) :
    probeLoop map absent found fuel (i % tablelen map.hashbits) key q = absent := by
  induction fuel generalizing q i with
  | zero => exact absurd hpos (Nat.not_lt_zero 0)
  | succ fuel ih =>
      rw [probeLoop]
      by_cases hlt : (map.slots (i % tablelen map.hashbits)).psl < q
      · rw [if_pos hlt]
      · have hpsl := h.psl_lt (i % tablelen map.hashbits)
        have hne : (map.slots (i % tablelen map.hashbits)).key ≠ key := by
          intro heq
          have hmem := h.mem_of_stored _ ⟨i, show (map.slots (i % tablelen map.hashbits)).psl ≠ 0 by omega, rfl⟩
          exact hkey (heq ▸ Finmap.mem_keys.mp hmem)
        rw [if_neg hlt, if_neg hne, Nat.mod_add_mod]
        exact ih (Nat.succ_pos q) (by omega) (by omega) (i + 1)

theorem Tracks.eq_empty (h : Tracks map f) (hsize : map.size = 0) : f = ∅ := by
  have hkeys : f.keys = ∅ := Finset.card_eq_zero.mp (h.size.symm.trans hsize)
  apply Finmap.ext_lookup
  intro k
  rw [Finmap.lookup_empty, Finmap.lookup_eq_none, ← Finmap.mem_keys, hkeys]
  exact Finset.notMem_empty k

/-- Finding a key gives its data, or the null pointer. -/
theorem Tracks.find_spec (h : Tracks map f) (key : Nat) : map.find key = .ok (f.lookup key) := by
  rw [Map.find]
  by_cases hsize : map.size = 0
  · rw [if_pos hsize, h.eq_empty hsize, Finmap.lookup_empty]
  · rw [if_neg hsize]
    cases hlookup : f.lookup key with
    | some d =>
        obtain ⟨i, p, hslot, hloop⟩ := h.probeLoop_found (.ok none) (fun idx => .ok (map.slots idx).data) hlookup
        have hdata : (map.slots (i % tablelen map.hashbits)).data = some d := congrArg Slot.data hslot
        rw [hloop, hdata]
    | none =>
        have hkey := Finmap.lookup_eq_none.mp hlookup
        rw [← Nat.mod_eq_of_lt (mapIndex_lt map.seed key h.hashbits_le)]
        exact h.probeLoop_absent hkey Nat.zero_lt_one (by omega) (by omega) _

end Probing

end Zngtcp2.HashMap
