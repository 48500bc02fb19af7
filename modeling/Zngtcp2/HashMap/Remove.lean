import Zngtcp2.HashMap.Resize

namespace Zngtcp2.HashMap

open Lib.RobinHood (Valid Stored StoredApart Hole slot distAt keyAt dist_congr slot_congr slot_update_of_not not_modEq)

variable {α : Type} {map : Map α} {f : Contents α}

section Removal

/-- Moving the entries behind the hole back closes it. The slot of the hole keeps what was in it until then. -/
theorem shiftLoop_spec {fuel i n : Nat} (hhole : Hole map.layout map.slots i)
    (hlen : 3 ≤ tablelen map.hashbits ∨ distAt map.layout map.slots (i + 2) ≤ 1) (hpsl : ∀ i, (map.slots i).psl < 256)
    (hold : distAt map.layout map.slots (i + 1) ≠ 0) (hempty : distAt map.layout map.slots (i + 2 + n) = 0)
    (hn : n < fuel) :
    ∃ map', shiftLoop fuel map ((i + 1) % tablelen map.hashbits) = .ok map' ∧ map'.seed = map.seed ∧
      map'.hashbits = map.hashbits ∧ map'.size = map.size ∧ Valid map.layout map'.slots ∧
      (∀ i, (map'.slots i).psl < 256) ∧
      ∀ e, Stored map.layout map'.slots e ↔ StoredApart map.layout map.slots i e := by
  induction fuel generalizing map i n with
  | zero => exact absurd hn (Nat.not_lt_zero n)
  | succ fuel ih =>
      have hnext : distAt map.layout map.slots (i + 2) = (map.slots ((i + 2) % tablelen map.hashbits)).psl := rfl
      rw [shiftLoop]
      dsimp only
      rw [Nat.mod_add_mod]
      by_cases hle : (map.slots ((i + 2) % tablelen map.hashbits)).psl ≤ 1
      · rw [if_pos hle]
        refine ⟨_, rfl, rfl, rfl, rfl, hhole.close hle rfl, psl_lt_update hpsl (Nat.succ_pos 255), ?_⟩
        exact Lib.RobinHood.stored_close rfl
      · rw [if_neg hle]
        have hgt : 1 < distAt map.layout map.slots (i + 2) := Nat.not_le.mp hle
        have hthree : 3 ≤ tablelen map.hashbits := hlen.resolve_right hle
        let s : Slot α := ⟨((map.slots ((i + 2) % tablelen map.hashbits)).psl - 1) % 256,
          (map.slots ((i + 2) % tablelen map.hashbits)).key, (map.slots ((i + 2) % tablelen map.hashbits)).data⟩
        have hs : map.layout.psl s + 1 = distAt map.layout map.slots (i + 2) := by
          have hlt := hpsl ((i + 2) % tablelen map.hashbits)
          change ((map.slots ((i + 2) % tablelen map.hashbits)).psl - 1) % 256 + 1 = _
          rw [Nat.mod_eq_of_lt (by omega), hnext]
          omega
        have hentry : map.layout.entry s = map.layout.entry (slot map.layout map.slots (i + 2)) := rfl
        -- the empty slot is neither the hole nor the slot behind it
        obtain ⟨n, rfl⟩ : ∃ n', n = n' + 1 := by
          cases n with
          | zero => exact absurd hempty (Nat.ne_of_gt (Nat.lt_trans Nat.zero_lt_one hgt))
          | succ n => exact ⟨n, rfl⟩
        have hkept : ∀ j, ¬ j ≡ i + 1 [MOD map.layout.len] →
            distAt map.layout (Function.update map.slots ((i + 1) % tablelen map.hashbits) s) j =
              distAt map.layout map.slots j :=
          fun j hj => congrArg Slot.psl (slot_update_of_not s hj)
        have hapart : ¬ i + 2 ≡ i + 1 [MOD map.layout.len] :=
          not_modEq (Nat.lt_succ_self _) (by change _ < _ + tablelen _; omega)
        have hahead : ¬ i + 1 + 2 + n ≡ i + 1 [MOD map.layout.len] := by
          intro hmod
          rw [show i + 1 + 2 + n = i + 2 + (n + 1) by omega] at hmod
          exact hold ((dist_congr hmod).symm.trans hempty)
        have hold' : distAt map.layout (Function.update map.slots ((i + 1) % tablelen map.hashbits) s) (i + 2) ≠ 0 := by
          rw [hkept _ hapart]
          omega
        have hempty' : distAt map.layout (Function.update map.slots ((i + 1) % tablelen map.hashbits) s)
            (i + 1 + 2 + n) = 0 := by
          rw [hkept _ hahead, show i + 1 + 2 + n = i + 2 + (n + 1) by omega]
          exact hempty
        obtain ⟨map', hloop, hseed, hbits, hsize, hvalid, hpsl', hstored⟩ :=
          @ih (mapSetEntry map ((i + 1) % tablelen map.hashbits) s.key s.data
              ((map.slots ((i + 2) % tablelen map.hashbits)).psl - 1)) (i + 1) n
            (hhole.shift hthree hgt hs hentry) (Or.inl hthree) (psl_lt_update hpsl (Nat.mod_lt _ (by omega)))
            hold' hempty' (by omega)
        refine ⟨map', hloop, hseed, hbits, hsize, hvalid, hpsl', fun e => ?_⟩
        exact (hstored e).trans (Lib.RobinHood.storedApart_shift hthree hgt hs hentry e)

theorem erase_of_notMem {key : Nat} (hkey : key ∉ f) : f.erase key = f := by
  apply Finmap.ext_lookup
  intro k
  by_cases hk : k = key
  · subst hk
    rw [Finmap.lookup_erase, Finmap.lookup_eq_none.mpr hkey]
  · rw [Finmap.lookup_erase_ne hk]

theorem Tracks.removeAt_spec (h : Tracks map f) {key i p : Nat} {d : α} (hkey : f.lookup key = some d)
    (hslot : slot map.layout map.slots i = ⟨p + 1, key, some d⟩) :
    ∃ map', removeAt map (i % tablelen map.hashbits) = .ok (.ok, map') ∧ Tracks map' (f.erase key) := by
  obtain ⟨e, -, he⟩ := h.exists_empty
  have hlen := tablelen_pos map.hashbits
  have hmem : key ∈ f := Finmap.mem_iff.mpr ⟨d, hkey⟩
  -- a turn further on there is a position before the slot
  obtain ⟨j, hj⟩ : ∃ j, j + 1 = i + tablelen map.hashbits := ⟨i + tablelen map.hashbits - 1, by omega⟩
  have hji : j + 1 ≡ i [MOD map.layout.len] := by
    rw [hj]
    exact Lib.RobinHood.add_len i
  have hslotj : slot map.layout map.slots (j + 1) = ⟨p + 1, key, some d⟩ := (slot_congr hji).trans hslot
  have hold : distAt map.layout map.slots (j + 1) ≠ 0 := by
    rw [distAt, hslotj]
    exact Nat.succ_ne_zero p
  have hkeyj : keyAt map.layout map.slots (j + 1) = key := by
    rw [keyAt, hslotj]
    rfl
  obtain ⟨n, hn, hempty⟩ := Lib.RobinHood.exists_empty_ahead he hlen (j + 2)
  have hshort : 3 ≤ tablelen map.hashbits ∨ distAt map.layout map.slots (j + 2) ≤ 1 := by
    have hlt : distAt map.layout map.slots (j + 2) < tablelen map.hashbits := h.valid.dist_lt he hlen _
    omega
  obtain ⟨map', hloop, hseed, hbits, hsize, hvalid, hpsl, hstored⟩ :=
    shiftLoop_spec (h.valid.hole j) hshort h.psl_lt hold hempty hn
  have hlayout : map'.layout = map.layout := by
    rw [Map.layout, Map.layout, hseed, hbits]
  refine ⟨{ map' with size := map'.size - 1 }, ?_, ⟨?_, fun e => ?_, hpsl, ?_, ?_, ?_, ?_⟩⟩
  · rw [removeAt, show i % tablelen map.hashbits = (j + 1) % tablelen map.hashbits from hji.symm]
    rw [show shiftLoop (tablelen map.hashbits) map ((j + 1) % tablelen map.hashbits) = .ok map' from hloop]
    rfl
  · change Valid map'.layout map'.slots
    rw [hlayout]
    exact hvalid
  · change Stored map'.layout map'.slots e ↔ _
    rw [hlayout, hstored, h.valid.storedApart hold, h.stored, hkeyj]
    by_cases hekey : e.1 = key
    · rw [hekey, Finmap.lookup_erase]
      constructor
      · rintro ⟨-, hne⟩
        exact absurd hekey hne
      · rintro ⟨d', -, hd'⟩
        cases hd'
    · rw [Finmap.lookup_erase_ne hekey]
      exact and_iff_left hekey
  · change map'.size - 1 = _
    rw [hsize, h.size, Finmap.keys_erase, Finset.card_erase_of_mem (Finmap.mem_keys.mpr hmem)]
  · have hload := h.load
    change map'.size - 1 < tablelen map'.hashbits
    rw [hsize, hbits]
    omega
  · change map'.hashbits ≤ maxHashbits
    rw [hbits]
    exact h.hashbits_le
  · change Lib.RobinHood.Spread map'.layout slack _
    rw [hlayout, Finmap.keys_erase]
    exact h.spread.mono (Finset.erase_subset key f.keys)

/-- Removing takes a key out of the map, and fails for one that is not in it. -/
theorem Tracks.remove_spec (h : Tracks map f) (key : Nat) :
    ∃ map', map.remove key = .ok (if key ∈ f then .ok else .invalidArgument, map') ∧ Tracks map' (f.erase key) := by
  rw [Map.remove]
  by_cases hsize : map.size = 0
  · have hkey : key ∉ f := by
      rw [h.eq_empty hsize]
      exact Finmap.notMem_empty
    rw [if_pos hsize, if_neg hkey, erase_of_notMem hkey]
    exact ⟨map, rfl, h⟩
  · rw [if_neg hsize]
    by_cases hkey : key ∈ f
    · obtain ⟨d, hd⟩ := Finmap.mem_iff.mp hkey
      obtain ⟨i, p, hslot, hloop⟩ := h.probeLoop_found (.ok (.invalidArgument, map)) (removeAt map) hd
      rw [hloop, if_pos hkey]
      exact h.removeAt_spec hd hslot
    · rw [if_neg hkey, erase_of_notMem hkey, ← Nat.mod_eq_of_lt (mapIndex_lt map.seed key h.hashbits_le)]
      exact ⟨map, h.probeLoop_absent hkey Nat.zero_lt_one (by omega) (by omega) _, h⟩

end Removal

section Clearing

theorem Tracks.clear_spec (h : Tracks map f) : Tracks map.clear ∅ := by
  rw [Map.clear]
  by_cases hsize : map.size = 0
  · rw [if_pos hsize, ← h.eq_empty hsize]
    exact h
  · rw [if_neg hsize]
    apply tracks_empty
    · intro i
      change (if i % tablelen map.hashbits < tablelen map.hashbits then _ else _ : Slot α).psl = 0
      rw [if_pos (Nat.mod_lt i (tablelen_pos _))]
    · intro i
      dsimp only
      split
      · exact Nat.succ_pos 255
      · exact h.psl_lt i
    · rfl
    · exact h.hashbits_le

end Clearing

section Visiting

/-- The entries of the slots that are in use, in the order of the slots. -/
def Map.live (map : Map α) : List (Nat × Option α) :=
  ((List.range (tablelen map.hashbits)).filter (fun i => (map.slots i).psl ≠ 0)).map
    fun i => ((map.slots i).key, (map.slots i).data)

theorem eachLoop_eq {ρ ε : Type} (slots : Nat → Slot α) (func : Option α → ρ → Except ε ρ) (is : List Nat) (ptr : ρ) :
    eachLoop slots func is ptr =
      (is.filter (fun i => (slots i).psl ≠ 0)).foldlM (fun ptr i => func (slots i).data ptr) ptr := by
  induction is generalizing ptr with
  | nil => rfl
  | cons i is ih =>
      rw [eachLoop]
      by_cases hpsl : (slots i).psl = 0
      · rw [if_pos hpsl, ih, List.filter_cons_of_neg (by simp [hpsl])]
      · rw [if_neg hpsl, List.filter_cons_of_pos (by simp [hpsl]), List.foldlM_cons]
        cases hfunc : func (slots i).data ptr with
        | error e => rfl
        | ok ptr' => exact ih ptr'

theorem slot_of_lt {i : Nat} (hi : i < tablelen map.hashbits) : slot map.layout map.slots i = map.slots i :=
  congrArg map.slots (Nat.mod_eq_of_lt hi)

theorem Tracks.mem_live (h : Tracks map f) (e : Nat × Option α) :
    e ∈ map.live ↔ ∃ d, e.2 = some d ∧ f.lookup e.1 = some d := by
  rw [← h.stored, Map.live, List.mem_map]
  constructor
  · rintro ⟨i, hi, rfl⟩
    rw [List.mem_filter, List.mem_range, decide_eq_true_iff] at hi
    exact ⟨i, by rw [distAt, slot_of_lt hi.1]; exact hi.2, by rw [slot_of_lt hi.1]; rfl⟩
  · rintro ⟨i, hi, rfl⟩
    refine ⟨i % tablelen map.hashbits, ?_, rfl⟩
    rw [List.mem_filter, List.mem_range, decide_eq_true_iff]
    exact ⟨Nat.mod_lt i (tablelen_pos _), hi⟩

theorem Tracks.nodup_live (h : Tracks map f) : map.live.Nodup := by
  apply List.Nodup.map_on
  · intro i hi j hj heq
    rw [List.mem_filter, List.mem_range, decide_eq_true_iff] at hi hj
    have hmod := h.valid.inj i j (by rw [distAt, slot_of_lt hi.1]; exact hi.2) (by rw [distAt, slot_of_lt hj.1]; exact hj.2)
      (by rw [keyAt, keyAt, slot_of_lt hi.1, slot_of_lt hj.1]; exact congrArg Prod.fst heq)
    exact Nat.ModEq.eq_of_lt_of_lt hmod hi.1 hj.1
  · exact List.nodup_range.filter _

/-- Every entry of the map is visited once. -/
theorem Tracks.live_eq (h : Tracks map f) :
    (map.live : Multiset (Nat × Option α)) = f.entries.map fun e => (e.1, some e.2) := by
  have hentries : f.entries.Nodup := f.nodupKeys.nodup
  have hinj : Function.Injective fun e : (Sigma fun _ : Nat => α) => (e.1, some e.2) := by
    rintro ⟨k, d⟩ ⟨k', d'⟩ heq
    simp only [Prod.mk.injEq, Option.some.injEq] at heq
    obtain ⟨rfl, rfl⟩ := heq
    rfl
  apply (Multiset.Nodup.ext (Multiset.coe_nodup.mpr h.nodup_live) (hentries.map hinj)).mpr
  intro e
  rw [Multiset.mem_coe, h.mem_live, Multiset.mem_map]
  constructor
  · rintro ⟨d, hd, hlookup⟩
    exact ⟨⟨e.1, d⟩, Finmap.mem_lookup_iff.mp hlookup, Prod.ext rfl hd.symm⟩
  · rintro ⟨⟨k, d⟩, hmem, rfl⟩
    exact ⟨d, rfl, Finmap.mem_lookup_iff.mpr hmem⟩

/-- The function is called for every entry, until it returns an error. -/
theorem Tracks.each_spec {ρ ε : Type} (h : Tracks map f) (func : Option α → ρ → Except ε ρ) (ptr : ρ) :
    map.each func ptr = map.live.foldlM (fun ptr e => func e.2 ptr) ptr := by
  rw [Map.each]
  by_cases hsize : map.size = 0
  · have hlive : map.live = [] := by
      rw [List.eq_nil_iff_forall_not_mem]
      intro e he
      obtain ⟨d, -, hd⟩ := (h.mem_live e).mp he
      rw [h.eq_empty hsize, Finmap.lookup_empty] at hd
      cases hd
    rw [if_pos hsize, hlive]
    rfl
  · rw [if_neg hsize, eachLoop_eq, Map.live, List.foldlM_map]

end Visiting


end Zngtcp2.HashMap
