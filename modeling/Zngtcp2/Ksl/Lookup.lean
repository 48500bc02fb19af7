import Zngtcp2.Ksl.Level

namespace Zngtcp2.SkipList

variable {K V α : Type} [LinearOrder K]

section

variable {P : WithBot K → K → α → Prop} {f : K × α → List (K × V)} {ls : Block K α → List (Block K V)} {h : Nat}
  {key : K} {m : Mem} {lo : WithBot K}

/-- The iterator stands at the first element that is not in front of the key. -/
def BoundsAt (key : K) (m : Mem) (ls : List (Block K V)) (it : It) : Prop :=
  ∃ front rest, content ls = front ++ rest ∧ (∀ e ∈ front, e.1 < key) ∧ (∀ e ∈ rest, key ≤ e.1) ∧ Marks m ls it rest

theorem BoundsAt.among {ls : List (Block K V)} {it : It} (h : BoundsAt key m ls it) {xs ys : List (Block K V)}
    (hlt : ∀ e ∈ content xs, e.1 < key) (hge : ∀ e ∈ content ys, key ≤ e.1) : BoundsAt key m (xs ++ ls ++ ys) it := by
  obtain ⟨front, rest, heq, hfront, hrest, hmarks⟩ := h
  refine ⟨content xs ++ front, rest ++ content ys, by simp [heq], ?_, ?_, hmarks.among xs ys⟩
  · exact fun e he => (List.mem_append.mp he).elim (hlt e) (hfront e)
  · exact fun e he => (List.mem_append.mp he).elim (hrest e) (hge e)

/-- The specification of a lookup in a block of one height. -/
def Bounds (P : WithBot K → K → α → Prop) (ls : Block K α → List (Block K V)) (key : K) (m : Mem)
    (guard : Block K α → Prop) (bound : Block K α → Except Fault It) : Prop :=
  ∀ (lo : WithBot K) (blk : Block K α), lo < key → Chain P lo blk.nodes → guard blk →
    ∃ it, bound blk = .ok it ∧ BoundsAt key m (ls blk) it

theorem lowerBoundLeaf_bounds : Bounds (fun _ _ _ => True) (fun b => [b]) key m (fun _ => True)
    fun blk : Block K V => .ok (m.settle blk.id (searchFront key blk.nodes).length blk.n) := by
  rintro lo ⟨id, ns⟩ - hc -
  change ∃ it, (Except.ok (m.settle id (searchFront key ns).length ns.length) : Except Fault It) = .ok it ∧ BoundsAt key m [⟨id, ns⟩] it
  have happ := search_append key ns
  have hfront := searchFront_lt key ns
  have hhead := @searchRest_le K V _ key ns
  generalize searchFront key ns = front, searchRest key ns = rest at happ hfront hhead ⊢
  subst happ
  refine ⟨_, rfl, front, rest, by simp, hfront, ?_, [], ⟨id, front ++ rest⟩, [], front.length, rfl, by simp [Block.n], rfl,
    by simp⟩
  cases rest with
  | nil => simp
  | cons n rest =>
      have hlt := (chain_append.mp hc).2.2.2.lt_mem
      have hn : key ≤ n.1 := hhead rfl
      exact List.forall_mem_cons.mpr ⟨hn, fun e he => le_trans hn (le_of_lt (WithBot.coe_lt_coe.mp (hlt e he)))⟩

/-- The last leaf is found. -/
def FindsLast (P : WithBot K → K → α → Prop) (ls : Block K α → List (Block K V)) (last : Block K α → Except Fault (Block K V)) :
    Prop :=
  ∀ (lo : WithBot K) (blk : Block K α), Chain P lo blk.nodes → blk.nodes ≠ [] →
    ∃ leaf xs, last blk = .ok leaf ∧ ls blk = xs ++ [leaf]

theorem lastLeafInner_finds {last : Block K α → Except Fault (Block K V)} (hl : FindsLast P ls last) :
    FindsLast (BlockOk P) (leavesInner ls) (lastLeafInner last) := by
  rintro lo ⟨id, ns⟩ hc hne
  obtain ⟨front, ⟨k, child⟩, rfl⟩ := (List.eq_nil_or_concat ns).resolve_left hne
  rw [List.concat_eq_append] at hc ⊢
  obtain ⟨-, -, hchild, -⟩ := chain_append.mp hc
  obtain ⟨leaf, xs, heq, hxs⟩ := hl _ child hchild.chain hchild.ne_nil
  refine ⟨leaf, leavesOf ls front ++ xs, ?_, ?_⟩
  · simp only [lastLeafInner, List.getLast?_concat, heq]
  · change leavesOf ls (front ++ [(k, child)]) = _
    rw [leavesOf_append, leavesOf_cons, leavesOf_nil, List.append_nil, hxs, List.append_assoc]

theorem lowerBoundInner_bounds (hv : Level h P f ls) {descend : Block K α → Except Fault It}
    {last : Block K α → Except Fault (Block K V)} (hd : Bounds P ls key m (fun b => b.nodes ≠ []) descend)
    (hl : FindsLast P ls last) :
    Bounds (BlockOk P) (leavesInner ls) key m (fun b => b.nodes ≠ []) (lowerBoundInner key m descend last) := by
  rintro lo ⟨id, ns⟩ hlo hc hne
  have happ := search_append key ns
  have hfront := searchFront_lt key ns
  have hhead := @searchRest_le K (Block K α) _ key ns
  have hcontent := hv.content_leavesOf
  have hkeyed := hv.inner.keyed
  rw [lowerBoundInner]
  generalize searchFront key ns = front, searchRest key ns = rest at happ hfront hhead
  subst happ
  cases rest with
  | nil =>
      rw [List.append_nil] at hc hne ⊢
      obtain ⟨leaf, xs, heq, hxs⟩ := lastLeafInner_finds hl lo ⟨id, front⟩ hc hne
      simp only [heq, bind, Except.bind]
      refine ⟨_, rfl, content (leavesOf ls front), [], (List.append_nil _).symm, ?_, by simp, xs, leaf, [], leaf.n, hxs, le_refl _,
        rfl, ?_⟩
      · intro e he
        rw [hcontent] at he
        exact WithBot.coe_lt_coe.mp (lt_of_le_of_lt (hc.bounds hkeyed e he).2 (endKey_lt hlo hfront))
      · simp [Block.n]
  | cons n rest =>
      obtain ⟨k, child⟩ := n
      obtain ⟨hcf, -, hchild, hcr⟩ := chain_append.mp hc
      have hend : endKey lo front < key := endKey_lt hlo hfront
      obtain ⟨it, hit, hb⟩ := hd _ child hend hchild.chain hchild.ne_nil
      refine ⟨it, hit, ?_⟩
      change BoundsAt key m (leavesOf ls (front ++ (k, child) :: rest)) it
      rw [leavesOf_append, leavesOf_cons, ← List.append_assoc]
      apply hb.among
      · intro e he
        rw [hcontent] at he
        exact WithBot.coe_lt_coe.mp (lt_of_le_of_lt (hcf.bounds hkeyed e he).2 hend)
      · intro e he
        rw [hcontent] at he
        exact le_trans (hhead rfl) (le_of_lt (WithBot.coe_lt_coe.mp (hcr.bounds hkeyed e he).1))

/-- `k` after `ngtcp2_ksl_update_key`, if it is the key of a node on the way. -/
def raised (oldKey newKey k : K) : K :=
  if k = oldKey ∨ k < newKey then newKey else k

/-- An element after its key was changed. -/
def rekey (oldKey newKey : K) (e : K × V) : K × V :=
  if e.1 = oldKey then (newKey, e.2) else e

/-- The new key has the place of the old one among the elements. -/
def Between (oldKey newKey : K) (es : List (K × V)) : Prop :=
  ∀ e ∈ es, (e.1 < oldKey → e.1 < newKey) ∧ (oldKey < e.1 → newKey < e.1)

section

variable {oldKey newKey : K}

theorem le_raised (oldKey newKey k : K) : newKey ≤ raised oldKey newKey k := by
  rw [raised]
  split
  next _ => exact le_refl _
  next h => exact not_lt.mp fun hlt => h (Or.inr hlt)

theorem raised_le_raised {a b : K} (ha : oldKey ≤ a) (hab : a ≤ b) : raised oldKey newKey a ≤ raised oldKey newKey b := by
  by_cases hb : b = oldKey ∨ b < newKey
  · have ha' : a = oldKey ∨ a < newKey := hb.imp (fun h => le_antisymm (h ▸ hab) ha) fun h => lt_of_le_of_lt hab h
    rw [raised, raised, if_pos ha', if_pos hb]
  · by_cases ha' : a = oldKey ∨ a < newKey
    · rw [raised, if_pos ha']
      exact le_raised oldKey newKey b
    · rwa [raised, raised, if_neg ha', if_neg hb]

theorem map_rekey {es : List (K × V)} (h : ∀ e ∈ es, e.1 ≠ oldKey) : es.map (rekey oldKey newKey) = es := by
  refine (List.map_congr_left fun e he => ?_).trans (List.map_id es)
  rw [rekey, if_neg (h e he)]
  rfl

/-- The last key, if the key of a node is changed on the way. -/
theorem endKey_raised {front rest : List (K × α)} {k : K} {a a' : α} (hrest : Chain P k rest)
    (hrest' : Chain P (raised oldKey newKey k : K) rest) (hk : oldKey ≤ k) :
    ∃ z : K, endKey lo (front ++ (k, a) :: rest) = z ∧ oldKey ≤ z ∧
      endKey lo (front ++ (raised oldKey newKey k, a') :: rest) = (raised oldKey newKey z : K) := by
  rcases List.eq_nil_or_concat rest with rfl | ⟨ns, n, rfl⟩
  · exact ⟨k, by simp, hk, by simp⟩
  · rw [List.concat_eq_append] at *
    have hmem : n ∈ ns ++ [n] := List.mem_append_right ns List.mem_cons_self
    have hlt : k < n.1 := WithBot.coe_lt_coe.mp (hrest.lt_mem n hmem)
    have hnew : newKey < n.1 := lt_of_le_of_lt (le_raised oldKey newKey k) (WithBot.coe_lt_coe.mp (hrest'.lt_mem n hmem))
    have hold : oldKey < n.1 := lt_of_le_of_lt hk hlt
    have hraised : raised oldKey newKey n.1 = n.1 :=
      if_neg (not_or.mpr ⟨ne_of_gt hold, not_lt.mpr (le_of_lt hnew)⟩)
    exact ⟨n.1, by simp, le_of_lt hold, by simp [hraised]⟩

/-- What the proofs need of a changed key in a block. -/
structure UpdateOk (P : WithBot K → K → α → Prop) (f : K × α → List (K × V)) (ls : Block K α → List (Block K V))
    (oldKey newKey : K) (lo : WithBot K) (blk blk' : Block K α) : Prop where
  chain : Chain P lo blk'.nodes
  endKey : ∃ k : K, endKey lo blk.nodes = k ∧ oldKey ≤ k ∧ endKey lo blk'.nodes = (raised oldKey newKey k : K)
  n : blk'.n = blk.n
  ids : ids (ls blk') = ids (ls blk)
  content : blk'.nodes.flatMap f = (blk.nodes.flatMap f).map (rekey oldKey newKey)

/-- The specification of a change of a key in a block of one height; `seps` are the keys in the inner
blocks. -/
def Updates (P : WithBot K → K → α → Prop) (f : K × α → List (K × V)) (ls : Block K α → List (Block K V)) (seps : Block K α → List K)
    (oldKey newKey : K) (update : Block K α → Except Fault (Block K α)) : Prop :=
  ∀ (lo : WithBot K) (blk : Block K α), lo < newKey → Chain P lo blk.nodes → oldKey ∈ (blk.nodes.flatMap f).map Prod.fst →
    Between oldKey newKey (blk.nodes.flatMap f) → (∀ k ∈ seps blk, k < oldKey → k < newKey) →
    ∃ blk', update blk = .ok blk' ∧ UpdateOk P f ls oldKey newKey lo blk blk'

theorem updateKeyLeaf_updates :
    Updates (fun _ _ _ => True) (fun n : K × V => [n]) (fun b => [b]) (fun _ => []) oldKey newKey (updateKeyLeaf oldKey newKey) := by
  rintro lo ⟨id, ns⟩ hlo hc hmem hbt -
  have happ := search_append oldKey ns
  have hfront := searchFront_lt oldKey ns
  have hhead := @searchRest_le K V _ oldKey ns
  rw [updateKeyLeaf]
  generalize hsf : searchFront oldKey ns = front, hsr : searchRest oldKey ns = rest at happ hfront hhead
  subst happ
  simp only [List.flatMap_singleton'] at hmem hbt
  cases rest with
  | nil =>
      rw [List.append_nil] at hmem
      obtain ⟨e, he, heq⟩ := List.mem_map.mp hmem
      exact absurd heq (ne_of_lt (hfront e he))
  | cons n rest =>
      obtain ⟨k, data⟩ := n
      obtain ⟨hcf, hk, -, hcr⟩ := chain_append.mp hc
      have hlt : ∀ e ∈ rest, k < e.1 := fun e he => WithBot.coe_lt_coe.mp (hcr.lt_mem e he)
      have hkey : k = oldKey := by
        obtain ⟨e, he, heq⟩ := List.mem_map.mp hmem
        rcases List.mem_append.mp he with he | he
        · exact absurd heq (ne_of_lt (hfront e he))
        · rcases List.mem_cons.mp he with rfl | he
          · exact heq
          · exact absurd heq (ne_of_gt (lt_of_le_of_lt (hhead rfl) (hlt e he)))
      subst hkey
      have hend : endKey lo front < newKey := endKey_lt hlo fun e he => (hbt e (List.mem_append_left _ he)).1 (hfront e he)
      have hgt : ∀ e ∈ rest, newKey < e.1 := fun e he =>
        (hbt e (List.mem_append_right _ (List.mem_cons_of_mem _ he))).2 (hlt e he)
      have hchain : Chain (fun _ _ _ => True) lo (front ++ (newKey, data) :: rest) := by
        refine chain_append.mpr ⟨hcf, hend, trivial, hcr.rebase level_leaf.keyed fun e he => ?_⟩
        rw [List.flatMap_singleton'] at he
        exact WithBot.coe_lt_coe.mpr (hgt e he)
      simp only [if_true]
      refine ⟨_, rfl, hchain, ?_, ?_, rfl, ?_⟩
      · have hraised : raised k newKey k = newKey := if_pos (Or.inl rfl)
        have hrest : Chain (fun _ _ _ => True) (raised k newKey k : K) rest := by
          rw [hraised]
          exact (chain_append.mp hchain).2.2.2
        have hend := @endKey_raised K V _ _ lo k newKey front rest k data data hcr hrest (le_refl k)
        rwa [hraised] at hend
      · simp [Block.n]
      · simp only [List.flatMap_singleton', List.map_append, List.map_cons]
        rw [map_rekey fun e he => ne_of_lt (hfront e he), map_rekey fun e he => ne_of_gt (hlt e he)]
        simp [rekey]

/-- The keys in an inner block and below it. -/
def separatorsInner (seps : Block K α → List K) (blk : Block K (Block K α)) : List K :=
  blk.nodes.flatMap fun n => n.1 :: seps n.2

theorem updateKeyInner_updates (hv : Level h P f ls) {seps : Block K α → List K} {descend : Block K α → Except Fault (Block K α)}
    (hd : Updates P f ls seps oldKey newKey descend) :
    Updates (BlockOk P) (fun n => n.2.nodes.flatMap f) (leavesInner ls) (separatorsInner seps) oldKey newKey
      (updateKeyInner oldKey newKey descend) := by
  rintro lo ⟨id, ns⟩ hlo hc hmem hbt hsep
  have happ := search_append oldKey ns
  have hfront := searchFront_lt oldKey ns
  have hhead := @searchRest_le K (Block K α) _ oldKey ns
  have hkeyed := hv.inner.keyed
  rw [updateKeyInner]
  generalize searchFront oldKey ns = front, searchRest oldKey ns = rest at happ hfront hhead
  subst happ
  obtain ⟨e, he, heq⟩ := List.mem_map.mp hmem
  have hlo' : lo < oldKey := heq ▸ (hc.bounds hkeyed e he).1
  have hcf := (chain_append.mp hc).1
  have hold : endKey lo front < oldKey := endKey_lt hlo' hfront
  have hlt : ∀ e ∈ front.flatMap fun n => n.2.nodes.flatMap f, e.1 < oldKey :=
    fun e he => WithBot.coe_lt_coe.mp (lt_of_le_of_lt (hcf.bounds hkeyed e he).2 hold)
  have hnew : endKey lo front < newKey := by
    refine endKey_lt hlo fun n hn => hsep n.1 ?_ (hfront n hn)
    exact List.mem_flatMap.mpr ⟨n, List.mem_append_left _ hn, List.mem_cons_self⟩
  rw [List.flatMap_append, List.mem_append] at he
  have he := he.resolve_left fun he => absurd heq (ne_of_lt (hlt e he))
  cases rest with
  | nil => cases he
  | cons n rest =>
      obtain ⟨k, child⟩ := n
      obtain ⟨-, hk, hchild, hcr⟩ := chain_append.mp hc
      have hkey : oldKey ≤ k := hhead rfl
      have hgt : ∀ e ∈ rest.flatMap fun n => n.2.nodes.flatMap f, k < e.1 :=
        fun e he => WithBot.coe_lt_coe.mp (hcr.bounds hkeyed e he).1
      rw [List.flatMap_cons, List.mem_append] at he
      have he := he.resolve_right fun he => absurd heq (ne_of_gt (lt_of_le_of_lt hkey (hgt e he)))
      have hbt' : Between oldKey newKey (child.nodes.flatMap f) := by
        intro e he
        apply hbt e
        simp [he]
      have hsep' : ∀ k ∈ seps child, k < oldKey → k < newKey := by
        intro k' hk'
        apply hsep k'
        exact List.mem_flatMap.mpr ⟨(k, child), List.mem_append_right _ List.mem_cons_self, List.mem_cons_of_mem _ hk'⟩
      obtain ⟨child', hupd, hok⟩ := hd _ child hnew hchild.chain (List.mem_map.mpr ⟨e, he, heq⟩) hbt' hsep'
      have hraised : (if k = oldKey ∨ k < newKey then newKey else k) = raised oldKey newKey k := rfl
      simp only [hupd, bind, Except.bind, hraised]
      have hrest : Chain (BlockOk P) (raised oldKey newKey k : K) rest := by
        refine hcr.rebase hkeyed fun e he => WithBot.coe_lt_coe.mpr ?_
        rw [raised]
        split
        next _ => exact (hbt e (by simp [he])).2 (lt_of_le_of_lt hkey (hgt e he))
        next _ => exact hgt e he
      have hchain : Chain (BlockOk P) lo (front ++ (raised oldKey newKey k, child') :: rest) := by
        refine chain_append.mpr ⟨hcf, ?_, ⟨?_, ?_, hok.chain, ?_⟩, hrest⟩
        · exact lt_of_lt_of_le hnew (WithBot.coe_le_coe.mpr (le_raised oldKey newKey k))
        · exact le_of_le_of_eq hchild.min hok.n.symm
        · exact le_of_eq_of_le hok.n hchild.max
        · obtain ⟨z, hz, holdz, hz'⟩ := hok.endKey
          rw [hz']
          apply WithBot.coe_le_coe.mpr
          apply raised_le_raised holdz
          exact WithBot.coe_le_coe.mp (hz ▸ hchild.le)
      refine ⟨_, rfl, hchain, endKey_raised hcr hrest hkey, ?_, ?_, ?_⟩
      · simp [Block.n]
      · change SkipList.ids (leavesOf ls (front ++ (raised oldKey newKey k, child') :: rest)) =
          SkipList.ids (leavesOf ls (front ++ (k, child) :: rest))
        simp only [leavesOf_append, leavesOf_cons, ids_append, hok.ids]
      · simp only [List.flatMap_append, List.flatMap_cons, List.map_append, hok.content]
        rw [map_rekey fun e he => ne_of_lt (hlt e he), map_rekey fun e he => ne_of_gt (lt_of_le_of_lt hkey (hgt e he))]

end

end

theorem lastLeaf_finds (h : Nat) : FindsLast (NodeOk (K := K) (V := V) h) (leaves h) (lastLeaf h) := by
  induction h with
  | zero => exact fun _ blk _ _ => ⟨blk, [], rfl, rfl⟩
  | succ h ih => exact lastLeafInner_finds ih

/-- The specification of the loop of `ngtcp2_ksl_lower_bound`. -/
theorem lowerBoundAt_bounds (key : K) (m : Mem) (h : Nat) :
    Bounds (NodeOk (V := V) h) (leaves h) key m (fun b => h = 0 ∨ b.nodes ≠ []) (lowerBoundAt key m h) := by
  induction h with
  | zero => exact fun lo blk hlo hc _ => lowerBoundLeaf_bounds lo blk hlo hc trivial
  | succ h ih =>
      intro lo blk hlo hc hne
      refine lowerBoundInner_bounds (level h) ?_ (lastLeaf_finds h) lo blk hlo hc (hne.resolve_left (Nat.succ_ne_zero h))
      exact fun lo blk hlo hc hne => ih lo blk hlo hc (Or.inr hne)

/-- The keys in the inner blocks of a subtree. -/
def separators : (h : Nat) → Tree K V h → List K
  | 0 => fun _ => []
  | h + 1 => separatorsInner (separators h)

/-- The specification of the loop of `ngtcp2_ksl_update_key`. -/
theorem updateKeyAt_updates (oldKey newKey : K) (h : Nat) :
    Updates (NodeOk (V := V) h) (entriesOf h) (leaves h) (separators h) oldKey newKey (updateKeyAt oldKey newKey h) := by
  induction h with
  | zero => exact updateKeyLeaf_updates
  | succ h ih => exact updateKeyInner_updates (level h) ih

/-- What the proofs need of a block from whose leaves one loses a node. -/
structure EraseOk (P : WithBot K → K → α → Prop) (ls : Block K α → List (Block K V)) (id i : Nat) (lo : WithBot K)
    (blk blk' : Block K α) : Prop where
  chain : Chain P lo blk'.nodes
  le : endKey lo blk'.nodes ≤ endKey lo blk.nodes
  max : blk'.n ≤ blk.n
  enough : minNblk ≤ blk.n → (∀ b ∈ ls blk, b.id = id → minNblk < b.n) → minNblk ≤ blk'.n
  leaves : ls blk' = (ls blk).map fun b => if b.id = id then ⟨b.id, b.nodes.eraseIdx i⟩ else b

section

variable {P : WithBot K → K → α → Prop} {f : K × α → List (K × V)} {ls : Block K α → List (Block K V)} {h : Nat} {id i : Nat}
  {lo : WithBot K}

theorem chain_eraseIdx (hk : Keyed P f) {ns : List (K × α)} (hc : Chain P lo ns) (i : Nat) :
    Chain P lo (ns.eraseIdx i) ∧ endKey lo (ns.eraseIdx i) ≤ endKey lo ns := by
  induction ns generalizing lo i with
  | nil => exact ⟨trivial, le_refl _⟩
  | cons n ns ih =>
      cases i with
      | zero =>
          refine ⟨hc.2.2.mono hk (le_of_lt hc.1), ?_⟩
          cases ns with
          | nil => exact le_of_lt hc.1
          | cons n' ns => exact le_refl _
      | succ i =>
          obtain ⟨hchain, hle⟩ := ih hc.2.2 i
          exact ⟨⟨hc.1, hc.2.1, hchain⟩, hle⟩

theorem eraseLeaf_ok {blk : Block K V} (hc : Chain (fun _ _ _ => True) lo blk.nodes) :
    EraseOk (fun _ _ _ => True) (fun b => [b]) id i lo blk (if blk.id = id then ⟨blk.id, blk.nodes.eraseIdx i⟩ else blk) := by
  by_cases hid : blk.id = id
  · rw [if_pos hid]
    obtain ⟨hchain, hle⟩ := chain_eraseIdx level_leaf.keyed hc i
    have hlen : blk.n ≤ (blk.nodes.eraseIdx i).length + 1 := by
      rw [List.length_eraseIdx]
      change blk.n ≤ (if i < blk.n then blk.n - 1 else blk.n) + 1
      split
      · omega
      · omega
    refine ⟨hchain, hle, List.length_eraseIdx_le _ _, fun _ hmin => ?_, ?_⟩
    · have hmin := hmin blk List.mem_cons_self hid
      change minNblk ≤ (blk.nodes.eraseIdx i).length
      omega
    · simp [hid]
  · rw [if_neg hid]
    refine ⟨hc, le_refl _, le_refl _, fun h _ => h, ?_⟩
    simp [hid]

/-- The specification of `mapLeaf` on a block of one height, if only leaves with enough nodes lose one. -/
def Erases (P : WithBot K → K → α → Prop) (ls : Block K α → List (Block K V)) (id i : Nat) (erase : Block K α → Block K α) :
    Prop :=
  ∀ (lo : WithBot K) (blk : Block K α), Chain P lo blk.nodes → (∀ b ∈ ls blk, b.id = id → minNblk < b.n) →
    EraseOk P ls id i lo blk (erase blk)

theorem Chain.erase {descend : Block K α → Block K α} (hd : Erases P ls id i descend) {ns : List (K × Block K α)}
    (hc : Chain (BlockOk P) lo ns) (hmin : ∀ b ∈ leavesOf ls ns, b.id = id → minNblk < b.n) :
    Chain (BlockOk P) lo (ns.map fun n => (n.1, descend n.2)) ∧ endKey lo (ns.map fun n => (n.1, descend n.2)) = endKey lo ns ∧
      leavesOf ls (ns.map fun n => (n.1, descend n.2)) =
        (leavesOf ls ns).map fun b => if b.id = id then ⟨b.id, b.nodes.eraseIdx i⟩ else b := by
  induction ns generalizing lo with
  | nil => exact ⟨trivial, rfl, rfl⟩
  | cons n ns ih =>
      rw [leavesOf_cons] at hmin
      have hmin' : ∀ b ∈ ls n.2, b.id = id → minNblk < b.n := fun b hb => hmin b (List.mem_append_left _ hb)
      have hok := hd lo n.2 hc.2.1.chain hmin'
      obtain ⟨hchain, hend, hleaves⟩ := ih hc.2.2 fun b hb => hmin b (List.mem_append_right _ hb)
      refine ⟨⟨hc.1, ⟨?_, ?_, hok.chain, ?_⟩, hchain⟩, hend, ?_⟩
      · exact hok.enough hc.2.1.min hmin'
      · exact le_trans hok.max hc.2.1.max
      · exact le_trans hok.le hc.2.1.le
      · rw [List.map_cons, leavesOf_cons, leavesOf_cons, List.map_append, hleaves, hok.leaves]

theorem mapInner_erases {descend : Block K α → Block K α} (hd : Erases P ls id i descend) :
    Erases (BlockOk P) (leavesInner ls) id i (mapInner descend) := by
  rintro lo ⟨id', ns⟩ hc hmin
  obtain ⟨hchain, hend, hleaves⟩ := hc.erase hd hmin
  have hlen : (ns.map fun n => (n.1, descend n.2)).length = ns.length := List.length_map _
  exact ⟨hchain, le_of_eq hend, le_of_eq hlen, fun h _ => le_of_le_of_eq h hlen.symm, hleaves⟩

end

omit [LinearOrder K] in
theorem mapLeaf_n (id : Nat) (f : List (K × V) → List (K × V)) (h : Nat) (t : Tree K V (h + 1)) :
    Block.n (mapLeaf id f (h + 1) t) = Block.n t :=
  List.length_map _

theorem mapLeaf_erases (id i : Nat) (h : Nat) : Erases (NodeOk (K := K) (V := V) h) (leaves h) id i (mapLeaf id (·.eraseIdx i) h) := by
  induction h with
  | zero => exact fun lo blk hc _ => eraseLeaf_ok hc
  | succ h ih => exact mapInner_erases ih

end Zngtcp2.SkipList
