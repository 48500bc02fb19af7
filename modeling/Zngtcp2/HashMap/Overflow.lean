import Zngtcp2.HashMap.Runs

namespace Zngtcp2.HashMap

open Lib.Run (run run_cons_ok run_append Ends)
open Lib.RobinHood (slot)

section Keys

/-- The inverse of the product of the two factors of the hash. -/
def unhash : Nat := 0x38fdfb4dcd025319

/-- The key with the given hash. -/
def keyOf (v : Nat) : Nat :=
  v * unhash % 2 ^ 64

theorem hash_keyOf {v : Nat} (hv : v < 2 ^ 64) : hash 0 (keyOf v) = v := by
  have hinverse : unhash * hasher * fibo ≡ 1 [MOD 2 ^ 64] := by
    rw [Nat.ModEq, unhash, hasher, fibo]
    norm_num
  have hmod : (keyOf v + 0) % 2 ^ 64 * hasher % 2 ^ 64 * fibo ≡ v [MOD 2 ^ 64] := by
    have hkey : (keyOf v + 0) % 2 ^ 64 ≡ v * unhash [MOD 2 ^ 64] := by
      rw [Nat.add_zero, keyOf]
      exact (Nat.mod_modEq _ _).trans (Nat.mod_modEq _ _)
    calc (keyOf v + 0) % 2 ^ 64 * hasher % 2 ^ 64 * fibo
        ≡ v * unhash * hasher * fibo [MOD 2 ^ 64] := ((Nat.mod_modEq _ _).trans (hkey.mul_right hasher)).mul_right fibo
      _ = v * (unhash * hasher * fibo) := by ring
      _ ≡ v * 1 [MOD 2 ^ 64] := hinverse.mul_left v
      _ = v := Nat.mul_one v
  rw [hash]
  exact Nat.mod_eq_of_modEq hmod hv

theorem keyOf_ne {v w : Nat} (hv : v < 2 ^ 64) (hw : w < 2 ^ 64) (h : v ≠ w) : keyOf v ≠ keyOf w := by
  intro heq
  have hhash := congrArg (hash 0) heq
  rw [hash_keyOf hv, hash_keyOf hw] at hhash
  exact h hhash

/-- Small hashes have the home 0 in small tables. -/
theorem mapIndex_keyOf {v b : Nat} (hv : v < 2 ^ 55) (hb : b ≤ 9) : mapIndex 0 b (keyOf v) = 0 := by
  rw [mapIndex, hash_keyOf (by omega)]
  apply Nat.div_eq_of_lt
  exact Nat.lt_of_lt_of_le hv (Nat.pow_le_pow_right (by omega) (by omega))

end Keys

section Run

/-- The slots with the keys of the hashes `1` to `n`, all of which have the home 0. -/
def runSlots (n : Nat) : Nat → Slot Unit :=
  fun i => if i < n then ⟨i + 1, keyOf (i + 1), some ()⟩ else {}

def runMap (n b : Nat) : Map Unit where
  slots := runSlots n
  seed := 0
  size := n
  hashbits := b

theorem runSlots_of_lt {n i : Nat} (h : i < n) : runSlots n i = ⟨i + 1, keyOf (i + 1), some ()⟩ :=
  if_pos h

theorem runSlots_self (n : Nat) : runSlots n n = {} :=
  if_neg (Nat.lt_irrefl n)

theorem runSlots_succ (n : Nat) :
    Function.update (runSlots n) n ⟨n + 1, keyOf (n + 1), some ()⟩ = runSlots (n + 1) := by
  funext i
  rw [Function.update_apply, runSlots, runSlots]
  by_cases hi : i = n
  · subst hi
    rw [if_pos rfl, if_pos (Nat.lt_succ_self i)]
  · rw [if_neg hi]
    by_cases hlt : i < n
    · rw [if_pos hlt, if_pos (by omega)]
    · rw [if_neg hlt, if_neg (by omega)]

/-- Slots that begin with the run are passed in looking for a place for the next key of it. -/
theorem run_skip {map : Map Unit} {n v : Nat} (hn : n ≤ tablelen map.hashbits) (hv : n < v) (hv' : v ≤ 256)
    (hslots : ∀ i < n, map.slots i = ⟨i + 1, keyOf (i + 1), some ()⟩) :
    ∀ m < n, 1 + m ≤ (slot map.layout map.slots (0 + m)).psl ∧
      (slot map.layout map.slots (0 + m)).key ≠ keyOf v := by
  intro m hm
  rw [Nat.zero_add, slot_of_lt (Nat.lt_of_lt_of_le hm hn), hslots m hm]
  exact ⟨Nat.le_of_eq (Nat.add_comm 1 m), keyOf_ne (by omega) (by omega) (by omega)⟩

theorem mapInsert_run {n b : Nat} (hb : b ≤ 9) (hn : n < tablelen b) (hsmall : n < 255) :
    mapInsert (runMap n b) (keyOf (n + 1)) (some ()) = .ok (some n, runMap (n + 1) b) := by
  have hskip := @run_skip (runMap n b) n (n + 1) (Nat.le_of_lt hn) (Nat.lt_succ_self n) (by omega)
    fun i hi => runSlots_of_lt hi
  have hloop := insertLoop_skip (some ()) n Nat.zero_lt_one hskip (tablelen b - n - 1 + 1)
  have hfuel : tablelen (runMap n b).hashbits = tablelen b - n - 1 + 1 + n := by
    change tablelen b = _
    omega
  have hslot : (runMap n b).slots n = {} := runSlots_self n
  rw [mapInsert, hfuel, show mapIndex (runMap n b).seed (runMap n b).hashbits (keyOf (n + 1)) =
    0 % tablelen (runMap n b).hashbits from (mapIndex_keyOf (by omega) hb).trans (Nat.zero_mod _).symm, hloop,
    Nat.zero_add, show n % tablelen (runMap n b).hashbits = n from Nat.mod_eq_of_lt hn,
    insertLoop_place (congrArg Slot.psl hslot), mapSetEntry, Nat.add_comm 1 n,
    Nat.mod_eq_of_lt (show n + 1 < 256 by omega)]
  exact congrArg (fun slots => Except.ok (some n, { runMap (n + 1) b with slots := slots })) (runSlots_succ n)

theorem rehash_run {n b : Nat} (hb : b ≤ 9) (hn : n ≤ tablelen b) (hsmall : n ≤ 255) (m k : Nat) :
    rehash (runSlots n) (List.range' k m) (runMap (min k n) b) = .ok (runMap (min (k + m) n) b) := by
  induction m generalizing k with
  | zero => rfl
  | succ m ih =>
      rw [List.range'_succ, rehash, show k + (m + 1) = k + 1 + m by omega, ← ih (k + 1)]
      by_cases hk : k < n
      · rw [runSlots_of_lt hk, if_neg (Nat.succ_ne_zero k), Nat.min_eq_left (Nat.le_of_lt hk),
          mapInsert_run hb (by omega) (by omega), Nat.min_eq_left hk]
      · have hslot : runSlots n k = {} := if_neg hk
        rw [hslot, if_pos rfl, Nat.min_eq_right (by omega), Nat.min_eq_right (by omega)]

theorem mapResize_run {n b b' : Nat} (hb : b' ≤ 9) (hle : b ≤ b') (hn : n ≤ tablelen b) (hsmall : n ≤ 255) :
    mapResize (runMap n b) b' = .ok (.ok, runMap n b') := by
  have hlen : tablelen b ≤ tablelen b' := Nat.pow_le_pow_right (by omega) hle
  have hempty : ({ seed := 0, hashbits := b' } : Map Unit) = runMap 0 b' := by
    rw [runMap]
    congr 1
  have hrehash : rehash (runSlots n) (resizeIndices (runMap n b)) (runMap 0 b') = .ok (runMap n b') := by
    rw [resizeIndices]
    by_cases hzero : n = 0
    · subst hzero
      rfl
    · rw [if_neg (show (runMap n b).size ≠ 0 from hzero), List.range_eq_range']
      have hall := rehash_run hb (hn.trans hlen) hsmall (tablelen b) 0
      rwa [Nat.zero_min, Nat.zero_add, Nat.min_eq_right hn] at hall
  rw [mapResize, if_neg (by rw [maxHashbits]; omega)]
  change (do let new ← rehash (runSlots n) (resizeIndices (runMap n b)) { seed := 0, hashbits := b' }; _) = _
  rw [hempty, hrehash]
  rfl

/-- The bits of the table after `n` keys of the run. It grows when it is seven eighths full, and with the
129th key, which lies at a distance of 129. -/
def runBits (n : Nat) : Nat :=
  if n = 0 then 0
  else if n ≤ 13 then 4
  else if n ≤ 27 then 5
  else if n ≤ 55 then 6
  else if n ≤ 111 then 7
  else if n ≤ 128 then 8
  else 9

/-- The table is enlarged before the next key. -/
theorem insert_run_full {n b t : Nat} (hfull : tablelen b - tablelen b / 8 ≤ n + 1)
    (ht : (if b ≠ 0 then b + 1 else initialHashbits) = t) (hle : b ≤ t) (ht9 : t ≤ 9) (hn : n ≤ tablelen b)
    (hroom : n < tablelen t) (hsmall : n < 255) :
    (runMap n b).insert (keyOf (n + 1)) () = .ok (.ok, runMap (n + 1) t) := by
  rw [Map.insert]
  dsimp only
  rw [if_pos (show tablelen (runMap n b).hashbits - tablelen (runMap n b).hashbits / 8 ≤ (runMap n b).size + 1 from
    hfull),
    show (if (runMap n b).hashbits ≠ 0 then (runMap n b).hashbits + 1 else initialHashbits) = t from ht,
    mapResize_run ht9 hle hn (by omega)]
  simp only [bind, Except.bind]
  rw [if_neg (fun hne => hne rfl), mapInsert_run ht9 hroom hsmall]
  rfl

/-- There is room for the next key. -/
theorem insert_run_room {n b : Nat} (hroom : n + 1 < tablelen b - tablelen b / 8) (hb : b ≤ 9) (hsmall : n < 128) :
    (runMap n b).insert (keyOf (n + 1)) () = .ok (.ok, runMap (n + 1) b) := by
  have hpsl : ((runMap (n + 1) b).slots n).psl < maxPslResizeThresh + 1 := by
    rw [show (runMap (n + 1) b).slots n = _ from runSlots_of_lt (Nat.lt_succ_self n), maxPslResizeThresh]
    dsimp only
    omega
  rw [Map.insert]
  dsimp only
  rw [if_neg (show ¬ tablelen (runMap n b).hashbits - tablelen (runMap n b).hashbits / 8 ≤ (runMap n b).size + 1 from
    Nat.not_le.mpr hroom), mapInsert_run hb (by omega) (by omega)]
  simp only [bind, Except.bind]
  rw [if_pos hpsl]

/-- The next key lies so far from its home that the table grows. -/
theorem insert_run_far {n b : Nat} (hroom : n + 1 < tablelen b - tablelen b / 8) (hb : b + 1 ≤ 9) (hfar : 128 ≤ n)
    (hsmall : n < 255) : (runMap n b).insert (keyOf (n + 1)) () = .ok (.ok, runMap (n + 1) (b + 1)) := by
  have hpsl : ¬ ((runMap (n + 1) b).slots n).psl < maxPslResizeThresh + 1 := by
    rw [show (runMap (n + 1) b).slots n = _ from runSlots_of_lt (Nat.lt_succ_self n), maxPslResizeThresh]
    dsimp only
    omega
  rw [Map.insert]
  dsimp only
  rw [if_neg (show ¬ tablelen (runMap n b).hashbits - tablelen (runMap n b).hashbits / 8 ≤ (runMap n b).size + 1 from
    Nat.not_le.mpr hroom), mapInsert_run (by omega) (by omega) hsmall]
  simp only [bind, Except.bind]
  rw [if_neg hpsl]
  exact mapResize_run hb (Nat.le_succ b) (by omega) (by omega)

theorem insert_run {n : Nat} (hn : n ≤ 128) :
    (runMap n (runBits n)).insert (keyOf (n + 1)) () = .ok (.ok, runMap (n + 1) (runBits (n + 1))) := by
  have hlen4 : tablelen 4 = 16 := rfl
  have hlen5 : tablelen 5 = 32 := rfl
  have hlen6 : tablelen 6 = 64 := rfl
  have hlen7 : tablelen 7 = 128 := rfl
  have hlen8 : tablelen 8 = 256 := rfl
  have hbits4 : ∀ m, 0 < m → m ≤ 13 → runBits m = 4 := by
    intro m hlo hhi
    rw [runBits, if_neg (by omega), if_pos hhi]
  have hbits5 : ∀ m, 13 < m → m ≤ 27 → runBits m = 5 := by
    intro m hlo hhi
    rw [runBits, if_neg (by omega), if_neg (by omega), if_pos hhi]
  have hbits6 : ∀ m, 27 < m → m ≤ 55 → runBits m = 6 := by
    intro m hlo hhi
    rw [runBits, if_neg (by omega), if_neg (by omega), if_neg (by omega), if_pos hhi]
  have hbits7 : ∀ m, 55 < m → m ≤ 111 → runBits m = 7 := by
    intro m hlo hhi
    rw [runBits, if_neg (by omega), if_neg (by omega), if_neg (by omega), if_neg (by omega), if_pos hhi]
  have hbits8 : ∀ m, 111 < m → m ≤ 128 → runBits m = 8 := by
    intro m hlo hhi
    rw [runBits, if_neg (by omega), if_neg (by omega), if_neg (by omega), if_neg (by omega), if_neg (by omega),
      if_pos hhi]
  rcases (by omega : n = 0 ∨ n = 13 ∨ n = 27 ∨ n = 55 ∨ n = 111 ∨ n = 128 ∨
    n ≠ 0 ∧ n < 13 ∨ 13 < n ∧ n < 27 ∨ 27 < n ∧ n < 55 ∨ 55 < n ∧ n < 111 ∨ 111 < n ∧ n < 128) with
    rfl | rfl | rfl | rfl | rfl | rfl | hn | hn | hn | hn | hn
  · exact @insert_run_full 0 0 4 (by decide) rfl (by decide) (by decide) (by decide) (by decide) (by decide)
  · exact @insert_run_full 13 4 5 (by decide) rfl (by decide) (by decide) (by decide) (by decide) (by decide)
  · exact @insert_run_full 27 5 6 (by decide) rfl (by decide) (by decide) (by decide) (by decide) (by decide)
  · exact @insert_run_full 55 6 7 (by decide) rfl (by decide) (by decide) (by decide) (by decide) (by decide)
  · exact @insert_run_full 111 7 8 (by decide) rfl (by decide) (by decide) (by decide) (by decide) (by decide)
  · exact @insert_run_far 128 8 (by decide) (by decide) (by decide) (by decide)
  · rw [hbits4 n (by omega) (by omega), hbits4 (n + 1) (by omega) (by omega)]
    exact insert_run_room (by rw [hlen4]; omega) (by omega) (by omega)
  · rw [hbits5 n (by omega) (by omega), hbits5 (n + 1) (by omega) (by omega)]
    exact insert_run_room (by rw [hlen5]; omega) (by omega) (by omega)
  · rw [hbits6 n (by omega) (by omega), hbits6 (n + 1) (by omega) (by omega)]
    exact insert_run_room (by rw [hlen6]; omega) (by omega) (by omega)
  · rw [hbits7 n (by omega) (by omega), hbits7 (n + 1) (by omega) (by omega)]
    exact insert_run_room (by rw [hlen7]; omega) (by omega) (by omega)
  · rw [hbits8 n (by omega) (by omega), hbits8 (n + 1) (by omega) (by omega)]
    exact insert_run_room (by rw [hlen8]; omega) (by omega) (by omega)

end Run

section Behind

/-- A key whose home in a table of 512 slots is the slot 129. -/
def behindKey : Nat :=
  keyOf (129 * 2 ^ 55)

/-- The slots with the first `n` keys of the run, and behind them the other key. -/
def behindSlots (n : Nat) : Nat → Slot Unit :=
  fun i => if i < n then ⟨i + 1, keyOf (i + 1), some ()⟩ else if i = n then ⟨n - 128, behindKey, some ()⟩ else {}

def behindMap (n : Nat) : Map Unit where
  slots := behindSlots n
  seed := 0
  size := n + 1
  hashbits := 9

theorem behindSlots_of_lt {n i : Nat} (h : i < n) : behindSlots n i = ⟨i + 1, keyOf (i + 1), some ()⟩ :=
  if_pos h

theorem behindSlots_self (n : Nat) : behindSlots n n = ⟨n - 128, behindKey, some ()⟩ := by
  rw [behindSlots, if_neg (Nat.lt_irrefl n), if_pos rfl]

theorem behindSlots_succ_self (n : Nat) : behindSlots n (n + 1) = {} := by
  rw [behindSlots, if_neg (by omega), if_neg (by omega)]

theorem insert_behind : (runMap 129 9).insert behindKey () = .ok (.ok, behindMap 129) := by
  have hindex : mapIndex 0 9 behindKey = 129 := by
    rw [mapIndex, behindKey, hash_keyOf (show 129 * 2 ^ 55 < 2 ^ 64 by decide)]
    rfl
  have hslots : Function.update (runSlots 129) 129 ⟨1, behindKey, some ()⟩ = behindSlots 129 := by
    funext i
    rw [Function.update_apply, runSlots, behindSlots]
    by_cases hi : i = 129
    · subst hi
      rw [if_pos rfl, if_neg (Nat.lt_irrefl 129), if_pos rfl]
    · rw [if_neg hi, if_neg hi]
  have hslot : ((runMap 129 9).slots 129).psl = 0 := congrArg Slot.psl (runSlots_self 129)
  have hinsert : mapInsert (runMap 129 9) behindKey (some ()) = .ok (some 129, behindMap 129) := by
    rw [mapInsert, show mapIndex (runMap 129 9).seed (runMap 129 9).hashbits behindKey = 129 from hindex,
      show tablelen (runMap 129 9).hashbits = 511 + 1 from rfl, insertLoop_place hslot, mapSetEntry]
    exact congrArg (fun slots => Except.ok (some 129, { behindMap 129 with slots := slots })) hslots
  have hlen : tablelen 9 = 512 := rfl
  rw [Map.insert]
  dsimp only
  rw [if_neg (show ¬ tablelen (runMap 129 9).hashbits - tablelen (runMap 129 9).hashbits / 8 ≤
    (runMap 129 9).size + 1 by change ¬ tablelen 9 - tablelen 9 / 8 ≤ 129 + 1; rw [hlen]; omega), hinsert]
  simp only [bind, Except.bind]
  rw [if_pos]
  rw [show (behindMap 129).slots 129 = _ from behindSlots_self 129, maxPslResizeThresh]
  dsimp only
  omega

/-- The slots after the next key of the run has driven the other one back. -/
def drivenSlots (n : Nat) : Nat → Slot Unit :=
  Function.update (Function.update (behindSlots n) n ⟨(n + 1) % 256, keyOf (n + 1), some ()⟩) (n + 1)
    ⟨n - 127, behindKey, some ()⟩

theorem drivenSlots_eq {n : Nat} (hn : 128 ≤ n) (hsmall : n < 255) : drivenSlots n = behindSlots (n + 1) := by
  funext i
  rw [drivenSlots, Function.update_apply, Function.update_apply, behindSlots, behindSlots,
    Nat.mod_eq_of_lt (show n + 1 < 256 by omega), show n + 1 - 128 = n - 127 by omega]
  by_cases hi1 : i = n + 1
  · subst hi1
    rw [if_pos rfl, if_neg (Nat.lt_irrefl _), if_pos rfl]
  · rw [if_neg hi1]
    by_cases hi : i = n
    · subst hi
      rw [if_pos rfl, if_pos (Nat.lt_succ_self i)]
    · rw [if_neg hi, if_neg hi1, if_neg hi]
      by_cases hlt : i < n
      · rw [if_pos hlt, if_pos (by omega)]
      · rw [if_neg hlt, if_neg (by omega)]

theorem insert_driving {n : Nat} (hn : 129 ≤ n) (hsmall : n ≤ 255) :
    (behindMap n).insert (keyOf (n + 1)) () =
      .ok (.ok, { slots := drivenSlots n, seed := 0, size := n + 2, hashbits := 9 }) := by
  have hlen : tablelen 9 = 512 := rfl
  have hskip := @run_skip (behindMap n) n (n + 1) (show n ≤ tablelen 9 by rw [hlen]; omega) (Nat.lt_succ_self n)
    (by omega) fun i hi => behindSlots_of_lt hi
  have hloop := insertLoop_skip (some ()) n Nat.zero_lt_one hskip (512 - n - 2 + 1 + 1)
  have hfuel : tablelen (behindMap n).hashbits = 512 - n - 2 + 1 + 1 + n := by
    change tablelen 9 = _
    rw [hlen]
    omega
  have hmod : n % tablelen (behindMap n).hashbits = n := Nat.mod_eq_of_lt (by change n < tablelen 9; rw [hlen]; omega)
  have hmod' : (n + 1) % tablelen (behindMap n).hashbits = n + 1 :=
    Nat.mod_eq_of_lt (by change n + 1 < tablelen 9; rw [hlen]; omega)
  have hslot : (behindMap n).slots n = _ := behindSlots_self n
  have hslot' : ((mapSetEntry (behindMap n) n (keyOf (n + 1)) (some ()) (1 + n)).slots (n + 1)).psl = 0 := by
    change (Function.update (behindSlots n) n _ (n + 1)).psl = 0
    rw [Function.update_of_ne (Nat.succ_ne_self n), behindSlots_succ_self]
  have hinsert : mapInsert (behindMap n) (keyOf (n + 1)) (some ()) =
      .ok (some (n + 1), { slots := drivenSlots n, seed := 0, size := n + 2, hashbits := 9 }) := by
    rw [mapInsert, hfuel, show mapIndex (behindMap n).seed (behindMap n).hashbits (keyOf (n + 1)) =
      0 % tablelen (behindMap n).hashbits from (mapIndex_keyOf (by omega) (Nat.le_refl 9)).trans (Nat.zero_mod _).symm,
      hloop, Nat.zero_add, hmod, insertLoop_swap hslot (by dsimp only; omega) (by dsimp only; omega), hmod',
      insertLoop_place hslot']
    dsimp only [mapSetEntry, behindMap]
    rw [Nat.add_comm 1 n, show (n - 128 + 1) % 256 = n - 127 by omega]
    rfl
  rw [Map.insert]
  dsimp only
  rw [if_neg (show ¬ tablelen (behindMap n).hashbits - tablelen (behindMap n).hashbits / 8 ≤
    (behindMap n).size + 1 by change ¬ tablelen 9 - tablelen 9 / 8 ≤ n + 1 + 1; rw [hlen]; omega), hinsert]
  simp only [bind, Except.bind]
  rw [if_pos]
  rw [drivenSlots, Function.update_self, maxPslResizeThresh]
  dsimp only
  omega

end Behind

section Loss

/-- The keys of the `m` hashes after `n` are inserted. -/
def insertOps (n m : Nat) : List (Op Unit) :=
  (List.range' n m).map fun i => .insert (keyOf (i + 1)) ()

/-- The table in which the 256th key of the run lies at a distance of 256. -/
def lostMap : Map Unit where
  slots := drivenSlots 255
  seed := 0
  size := 257
  hashbits := 9

/-- The calls after which a key is not found. -/
def lossOps : List (Op Unit) :=
  insertOps 0 129 ++ .insert behindKey () :: (insertOps 129 126 ++ [.insert (keyOf 256) (), .find (keyOf 256)])

theorem run_insertOps {maps : Nat → Map Unit} {m n : Nat}
    (h : ∀ i < m, (maps (n + i)).insert (keyOf (n + i + 1)) () = .ok (.ok, maps (n + i + 1)))
    (answers : List (Answer Unit)) :
    ∃ answers', run step (maps n, answers) (insertOps n m) = .ok (maps (n + m), answers') := by
  induction m generalizing n answers with
  | zero => exact ⟨answers, rfl⟩
  | succ m ih =>
      have hfirst : step (maps n, answers) (.insert (keyOf (n + 1)) ()) = .ok (maps (n + 1), answers ++ [.rv .ok]) := by
        have hinsert := h 0 (Nat.succ_pos m)
        rw [Nat.add_zero] at hinsert
        rw [step, Map.call, hinsert]
        rfl
      have hrest : ∀ i < m, (maps (n + 1 + i)).insert (keyOf (n + 1 + i + 1)) () = .ok (.ok, maps (n + 1 + i + 1)) := by
        intro i hi
        have hinsert := h (i + 1) (Nat.succ_lt_succ hi)
        rwa [show n + (i + 1) = n + 1 + i by omega] at hinsert
      obtain ⟨answers', hrun⟩ := ih hrest (answers ++ [.rv .ok])
      refine ⟨answers', ?_⟩
      rw [insertOps, List.range'_succ, List.map_cons, run_cons_ok hfirst, show n + (m + 1) = n + 1 + m by omega]
      exact hrun

theorem find_lost : lostMap.find (keyOf 256) = .ok none := by
  have hlen : tablelen lostMap.hashbits = 512 := rfl
  have hslots : ∀ i < 255, lostMap.slots i = ⟨i + 1, keyOf (i + 1), some ()⟩ := by
    intro i hi
    rw [show lostMap.slots = drivenSlots 255 from rfl, drivenSlots, Function.update_of_ne (by omega),
      Function.update_of_ne (by omega), behindSlots_of_lt hi]
  have hpsl : (lostMap.slots 255).psl = 0 := by
    rw [show lostMap.slots = drivenSlots 255 from rfl, drivenSlots, Function.update_of_ne (Nat.succ_ne_self 255).symm,
      Function.update_self]
  have hloop := probeLoop_skip (.ok none) (fun idx => .ok (lostMap.slots idx).data) 255
    (run_skip (show 255 ≤ tablelen lostMap.hashbits by rw [hlen]; omega) (show 255 < 256 by omega) (Nat.le_refl 256)
      hslots) (0 + 1)
  rw [Map.find, if_neg (show lostMap.size ≠ 0 from Nat.succ_ne_zero 256),
    show mapIndex lostMap.seed lostMap.hashbits (keyOf 256) = 0 % tablelen lostMap.hashbits from
      (mapIndex_keyOf (by omega) (Nat.le_refl 9)).trans (Nat.zero_mod _).symm, hloop, probeLoop,
    show (0 + 255) % tablelen lostMap.hashbits = 255 from rfl, hpsl, if_pos (Nat.succ_pos _)]

/-- Every call returns, and the last one does not find the key that has just been inserted. -/
theorem run_lossOps : ∃ answers, run step (mapInit 0, []) lossOps = .ok (lostMap, answers ++ [.data none]) := by
  have hempty : (mapInit 0 : Map Unit) = runMap 0 (runBits 0) := by
    rw [mapInit, runMap]
    congr 1
  obtain ⟨answers₁, hrun₁⟩ := @run_insertOps (fun n => runMap n (runBits n)) 129 0
    (fun i hi => by rw [Nat.zero_add]; exact insert_run (Nat.le_of_lt_succ hi)) []
  obtain ⟨answers₂, hrun₂⟩ := @run_insertOps behindMap 126 129
    (fun i hi => by
      rw [insert_driving (by omega) (by omega), drivenSlots_eq (by omega) (by omega)]
      rfl) (answers₁ ++ [.rv .ok])
  have hbehind : step (runMap 129 9, answers₁) (.insert behindKey ()) = .ok (behindMap 129, answers₁ ++ [.rv .ok]) := by
    rw [step, Map.call, insert_behind]
    rfl
  have hlast : step (behindMap 255, answers₂) (.insert (keyOf 256) ()) = .ok (lostMap, answers₂ ++ [.rv .ok]) := by
    rw [step, Map.call, @insert_driving 255 (by omega) (Nat.le_refl 255)]
    rfl
  have hfind : step (lostMap, answers₂ ++ [.rv .ok]) (.find (keyOf 256)) =
      .ok (lostMap, answers₂ ++ [.rv .ok] ++ [.data none]) := by
    rw [step, Map.call, find_lost]
    rfl
  refine ⟨answers₂ ++ [.rv .ok], ?_⟩
  rw [hempty, lossOps, run_append, hrun₁]
  dsimp only
  rw [Nat.zero_add, show runBits 129 = 9 from rfl, run_cons_ok hbehind, run_append, hrun₂]
  dsimp only
  rw [run_cons_ok hlast, run_cons_ok hfind, run]

theorem specStep_insert_lookup (s : Contents Unit × List (Answer Unit)) (key : Nat) :
    (specStep s (.insert key ())).1.lookup key = some () := by
  rw [specStep]
  by_cases hkey : key ∈ s.1
  · rw [if_pos hkey]
    obtain ⟨d, hd⟩ := Finmap.mem_iff.mp hkey
    exact hd
  · rw [if_neg hkey]
    exact Finmap.lookup_insert s.1

theorem specRun_lossOps (answers : List (Answer Unit)) : answers ++ [.data none] ≠ (specRun lossOps).2 := by
  intro hanswers
  rw [specRun, lossOps, List.foldl_append, List.foldl_cons, List.foldl_append, List.foldl_cons, List.foldl_cons,
    List.foldl_nil, specStep.eq_def _ (.find _)] at hanswers
  dsimp only at hanswers
  rw [specStep_insert_lookup] at hanswers
  have hlast := (List.append_inj' hanswers rfl).2
  injection hlast with hdata
  injection hdata with hnone
  exact absurd hnone (Option.some_ne_none ()).symm

end Loss

end Zngtcp2.HashMap
