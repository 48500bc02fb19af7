import Zngtcp2.Ksl.Level

namespace Zngtcp2.SkipList

variable {K V α : Type} [LinearOrder K]

/-- How an insertion ends, which started with the elements `es` and leaves the leaves `ls`: `alloc`
are the allocations that it could use. -/
inductive InsertResult (key : K) (data : V) (alloc : List Bool) (m : Mem) (es : List (K × V)) (ls : List (Block K V)) :
    Rv → Option It → Prop
  | inserted {front rest : List (K × V)} {it : It} (split : es = front ++ rest) (lt : ∀ e ∈ front, e.1 < key)
      (gt : ∀ e ∈ rest, key < e.1) (eq : content ls = front ++ (key, data) :: rest)
      (marks : Marks m ls it ((key, data) :: rest)) : InsertResult key data alloc m es ls .ok (some it)
  | present (mem : key ∈ es.map Prod.fst) (eq : content ls = es) : InsertResult key data alloc m es ls .invalidArgument none
  | nomem (failed : false ∈ alloc) (eq : content ls = es) : InsertResult key data alloc m es ls .nomem none

theorem InsertResult.among {key : K} {data : V} {alloc : List Bool} {m : Mem} {es : List (K × V)} {ls : List (Block K V)}
    {rv : Rv} {it : Option It} (h : InsertResult key data alloc m es ls rv it) {xs ys : List (Block K V)}
    (hlt : ∀ e ∈ content xs, e.1 < key) (hgt : ∀ e ∈ content ys, key < e.1) :
    InsertResult key data alloc m (content xs ++ es ++ content ys) (xs ++ ls ++ ys) rv it := by
  cases h with
  | @inserted front rest it split lt gt eq marks =>
      have hsplit : content xs ++ es ++ content ys = (content xs ++ front) ++ (rest ++ content ys) := by
        simp [split]
      refine .inserted hsplit ?_ ?_ ?_ (marks.among xs ys)
      · exact fun e he => (List.mem_append.mp he).elim (hlt e) (lt e)
      · exact fun e he => (List.mem_append.mp he).elim (gt e) (hgt e)
      · simp [eq]
  | present mem eq =>
      refine .present ?_ (by simp [eq])
      rw [List.map_append, List.map_append]
      exact List.mem_append_left _ (List.mem_append_right _ mem)
  | nomem failed eq => exact .nomem failed (by simp [eq])

/-- What the proofs need of an insertion into a block that is not full. -/
structure InsertOk (P : WithBot K → K → α → Prop) (f : K × α → List (K × V)) (ls : Block K α → List (Block K V)) (key : K)
    (data : V) (m : Mem) (lo : WithBot K) (blk : Block K α) (o : Outcome K α) : Prop where
  id : o.blk.id = blk.id
  chain : Chain P lo o.blk.nodes
  le : endKey lo o.blk.nodes ≤ max (endKey lo blk.nodes) key
  min : blk.n ≤ o.blk.n
  max : o.blk.n ≤ maxNblk
  relinks : Relinks m (ids (ls blk)) o.mem (ids (ls o.blk))
  result : InsertResult key data m.alloc o.mem (blk.nodes.flatMap f) (ls o.blk) o.rv o.it

section

variable {P : WithBot K → K → α → Prop} {f : K × α → List (K × V)} {ls : Block K α → List (Block K V)} {h : Nat}
  {key : K} {data : V} {m : Mem} {lo : WithBot K}

/-- The two halves of a full block. -/
structure Halves (ls : Block K α → List (Block K V)) (m : Mem) (blk : Block K α) (m' : Mem) (l r : Block K α) : Prop where
  nodes : l.nodes ++ r.nodes = blk.nodes
  left : l.n = minNblk
  right : r.n = minNblk
  id : l.id = blk.id
  relinks : Relinks m (ids (ls blk)) m' (ids (ls l) ++ ids (ls r))
  alloc : m'.alloc = m.alloc.tail

theorem splitBlk_full (hv : Level h P f ls) (m : Mem) {blk : Block K α} (hn : blk.n = maxNblk) :
    (m.alloc.head? = some false ∧ splitBlk h m blk = .ok ({ m with alloc := m.alloc.tail }, none)) ∨
      m.alloc.head? ≠ some false ∧ ∃ m' l r, splitBlk h m blk = .ok (m', some (l, r)) ∧ Halves ls m blk m' l r := by
  rw [splitBlk]
  rcases m.new_cases with ⟨ha, hnew⟩ | ⟨ha, hnew⟩
  · exact Or.inl ⟨ha, by rw [hnew]⟩
  · refine Or.inr ⟨ha, ?_⟩
    have hhalf : blk.n / 2 = minNblk := by
      rw [hn]
      rfl
    have hrest : blk.n - minNblk = minNblk := by
      rw [hn]
      rfl
    simp only [hnew, hhalf, hrest]
    rw [if_neg (by omega)]
    refine ⟨_, _, _, rfl, List.take_append_drop _ _, ?_, ?_, rfl, hv.split blk minNblk rfl rfl rfl, rfl⟩
    · rw [Block.n, List.length_take]
      change Nat.min minNblk blk.n = minNblk
      rw [hn]
      rfl
    · rw [Block.n, List.length_drop]
      exact hrest

/-- An insertion below the node `k` of an inner block, which lies there, or behind all the nodes: the
key of the node grows if it has to. -/
theorem insert_child (hv : Level h P f ls) (id : Nat) {front rest : List (K × Block K α)} {k : K} {child : Block K α}
    {o : Outcome K α} (hc : Chain (BlockOk P) lo (front ++ (k, child) :: rest)) (hlo : endKey lo front < key)
    (hkey : key ≤ k ∨ rest = []) (hmax : (front ++ (k, child) :: rest).length ≤ maxNblk)
    (ho : InsertOk P f ls key data m (endKey lo front) child o) :
    InsertOk (BlockOk P) (fun n => n.2.nodes.flatMap f) (leavesInner ls) key data m lo ⟨id, front ++ (k, child) :: rest⟩
      ⟨o.mem, ⟨id, front ++ (max k key, o.blk) :: rest⟩, o.rv, o.it⟩ := by
  obtain ⟨hfront, hk, hchild, hrest⟩ := chain_append.mp hc
  have hinner := hv.inner
  constructor
  · rfl
  · refine chain_append.mpr ⟨hfront, lt_of_lt_of_le hk (WithBot.coe_le_coe.mpr (le_max_left k key)), ?_, ?_⟩
    · refine ⟨le_trans hchild.min ho.min, ho.max, ho.chain, le_trans ho.le ?_⟩
      rw [WithBot.coe_max]
      exact max_le_max hchild.le (le_refl _)
    · rcases hkey with hkey | rfl
      · rwa [max_eq_left hkey]
      · trivial
  · change endKey lo (front ++ (max k key, o.blk) :: rest) ≤ max (endKey lo (front ++ (k, child) :: rest)) key
    rw [endKey_append, endKey_append, endKey_cons, endKey_cons]
    cases rest with
    | nil =>
        rw [endKey_nil, endKey_nil, WithBot.coe_max]
    | cons n rest => exact le_max_left _ _
  · change (front ++ (k, child) :: rest).length ≤ (front ++ (max k key, o.blk) :: rest).length
    simp
  · change (front ++ (max k key, o.blk) :: rest).length ≤ maxNblk
    simpa using hmax
  · have := ho.relinks.among (ids (leavesOf ls front)) (ids (leavesOf ls rest))
    change Relinks m (ids (leavesOf ls (front ++ (k, child) :: rest))) o.mem (ids (leavesOf ls (front ++ (max k key, o.blk) :: rest)))
    simpa only [leavesOf_append, leavesOf_cons, ids_append, List.append_assoc] using this
  · have hlt : ∀ e ∈ content (leavesOf ls front), e.1 < key := by
      intro e he
      rw [hv.content_leavesOf] at he
      exact WithBot.coe_lt_coe.mp (lt_of_le_of_lt (hfront.bounds hinner.keyed e he).2 hlo)
    have hgt : ∀ e ∈ content (leavesOf ls rest), key < e.1 := by
      intro e he
      rw [hv.content_leavesOf] at he
      rcases hkey with hkey | rfl
      · exact lt_of_le_of_lt hkey (WithBot.coe_lt_coe.mp (hrest.bounds hinner.keyed e he).1)
      · cases he
    have := ho.result.among hlt hgt
    rw [hv.content_leavesOf, hv.content_leavesOf] at this
    change InsertResult key data m.alloc o.mem ((front ++ (k, child) :: rest).flatMap _)
      (leavesOf ls (front ++ (max k key, o.blk) :: rest)) o.rv o.it
    simpa only [leavesOf_append, leavesOf_cons, List.flatMap_append, List.flatMap_cons, List.append_assoc] using this

/-- The nodes `ns` of an inner block are replaced by `ns'`, which are the same but for a split. -/
structure Splits (P : WithBot K → K → α → Prop) (f : K × α → List (K × V)) (ls : Block K α → List (Block K V)) (lo : WithBot K)
    (m : Mem) (ns : List (K × Block K α)) (m' : Mem) (ns' : List (K × Block K α)) : Prop where
  chain : Chain (BlockOk P) lo ns'
  endKey : endKey lo ns' = endKey lo ns
  length : ns'.length = ns.length + 1
  relinks : Relinks m (ids (leavesOf ls ns)) m' (ids (leavesOf ls ns'))
  content : (ns'.flatMap fun n => n.2.nodes.flatMap f) = ns.flatMap fun n => n.2.nodes.flatMap f
  alloc : m'.alloc = m.alloc.tail

theorem split_child {m' : Mem} {front rest : List (K × Block K α)} {k : K} {child l r : Block K α}
    (hc : Chain (BlockOk P) lo (front ++ (k, child) :: rest)) (hh : Halves ls m child m' l r) :
    Splits P f ls lo m (front ++ (k, child) :: rest) m' (front ++ (l.lastKey k, l) :: (k, r) :: rest) := by
  obtain ⟨hfront, hk, hchild, hrest⟩ := chain_append.mp hc
  have hnodes := hchild.chain
  have hend := hchild.le
  rw [← hh.nodes] at hnodes hend
  have hmax : minNblk ≤ maxNblk := by
    decide
  constructor
  · refine chain_append.mpr ⟨hfront, hnodes.cut hend ⟨?_, ?_⟩ ⟨?_, ?_⟩ hrest⟩
    · exact le_of_eq hh.left.symm
    · rwa [hh.left]
    · exact le_of_eq hh.right.symm
    · rwa [hh.right]
  · simp
  · simp only [List.length_append, List.length_cons]
    omega
  · have := hh.relinks.among (ids (leavesOf ls front)) (ids (leavesOf ls rest))
    simpa only [leavesOf_append, leavesOf_cons, ids_append, List.append_assoc] using this
  · simp [← hh.nodes]
  · exact hh.alloc

theorem InsertOk.split {m' : Mem} {id : Nat} {ns ns' : List (K × Block K α)} {o : Outcome K (Block K α)}
    (ho : InsertOk (BlockOk P) (fun n => n.2.nodes.flatMap f) (leavesInner ls) key data m' lo ⟨id, ns'⟩ o)
    (hs : Splits P f ls lo m ns m' ns') :
    InsertOk (BlockOk P) (fun n => n.2.nodes.flatMap f) (leavesInner ls) key data m lo ⟨id, ns⟩ o := by
  constructor
  · exact ho.id
  · exact ho.chain
  · have := ho.le
    rwa [hs.endKey] at this
  · have hmin : ns'.length ≤ o.blk.n := ho.min
    have hlen := hs.length
    change ns.length ≤ o.blk.n
    omega
  · exact ho.max
  · exact hs.relinks.trans ho.relinks
  · have := ho.result
    rw [hs.content] at this
    generalize o.rv = rv, o.it = it at this ⊢
    cases this with
    | inserted split lt gt eq marks => exact .inserted split lt gt eq marks
    | present mem eq => exact .present mem eq
    | nomem failed eq => exact .nomem (List.mem_of_mem_tail (hs.alloc ▸ failed)) eq

theorem insert_failed (hv : Level h P f ls) (blk : Block K α) (hc : Chain P lo blk.nodes) (hmax : blk.n ≤ maxNblk)
    (hfail : m.alloc.head? = some false) :
    InsertOk P f ls key data m lo blk ⟨{ m with alloc := m.alloc.tail }, blk, .nomem, none⟩ := by
  refine ⟨rfl, hc, le_max_left _ _, le_refl _, hmax, ?_, .nomem ?_ (hv.content blk)⟩
  · exact @Relinks.of_eq m { m with alloc := m.alloc.tail } rfl rfl (le_refl m.fresh) _
  · exact List.mem_of_head? hfail

/-- The specification of an insertion into a block of one height, which is not full. -/
def Inserts (P : WithBot K → K → α → Prop) (f : K × α → List (K × V)) (ls : Block K α → List (Block K V)) (key : K) (data : V)
    (guard : WithBot K → Block K α → Prop) (insert : Mem → Block K α → Except Fault (Outcome K α)) : Prop :=
  ∀ (m : Mem) (lo : WithBot K) (blk : Block K α), lo < key → Chain P lo blk.nodes → blk.n < maxNblk → guard lo blk →
    ∃ o, insert m blk = .ok o ∧ InsertOk P f ls key data m lo blk o

/-- The new key is behind all the keys of the block. -/
def Behind (key : K) (lo : WithBot K) (blk : Block K α) : Prop :=
  blk.nodes ≠ [] ∧ endKey lo blk.nodes < key

theorem insertLeaf_ok (front rest : List (K × V)) (id : Nat) (hc : Chain (fun _ _ _ => True) lo (front ++ rest))
    (hlo : lo < key) (hfront : ∀ n ∈ front, n.1 < key) (hrest : ∀ n ∈ rest, key < n.1)
    (hmax : (front ++ rest).length < maxNblk) :
    InsertOk (fun _ _ _ => True) (fun n => [n]) (fun b => [b]) key data m lo ⟨id, front ++ rest⟩
      ⟨m, ⟨id, front ++ (key, data) :: rest⟩, .ok, some ⟨id, front.length⟩⟩ := by
  obtain ⟨hcf, hcr⟩ := chain_append.mp hc
  have hend : endKey lo front < key := endKey_lt hlo hfront
  constructor
  · rfl
  · refine chain_append.mpr ⟨hcf, hend, trivial, ?_⟩
    refine hcr.rebase level_leaf.keyed fun e he => ?_
    rw [List.flatMap_singleton'] at he
    exact WithBot.coe_lt_coe.mpr (hrest e he)
  · change endKey lo (front ++ (key, data) :: rest) ≤ max (endKey lo (front ++ rest)) key
    cases rest with
    | nil => simp
    | cons n rest => simp
  · change (front ++ rest).length ≤ (front ++ (key, data) :: rest).length
    simp
  · change (front ++ (key, data) :: rest).length ≤ maxNblk
    simp only [List.length_append, List.length_cons] at hmax ⊢
    omega
  · exact Relinks.refl m [id]
  · refine .inserted ?_ hfront hrest ?_ ⟨[], ⟨id, front ++ (key, data) :: rest⟩, [], front.length, rfl, ?_, ?_, ?_⟩
    · exact List.flatMap_singleton' _
    · simp
    · simp [Block.n]
    · rw [Mem.settle, if_neg]
      simp [Block.n]
    · simp

theorem insertLeafLast_inserts : Inserts (fun _ _ _ => True) (fun n => [n]) (fun b => [b]) key data (Behind key) (insertLeafLast key data) := by
  intro m lo blk hlo hc hmax hg
  rw [insertLeafLast, if_pos hmax]
  refine ⟨_, rfl, ?_⟩
  have hlt : ∀ n ∈ blk.nodes, n.1 < key := fun n hn => WithBot.coe_lt_coe.mp (lt_of_le_of_lt (hc.mem_le n hn) hg.2)
  have hc' : Chain (fun _ _ _ => True) lo (blk.nodes ++ []) := by
    rwa [List.append_nil]
  have hok := @insertLeaf_ok K V _ key data m lo blk.nodes [] blk.id hc' hlo hlt (by simp) (by simpa [Block.n] using hmax)
  simpa [Block.n] using hok

theorem insertInnerLast_inserts (hv : Level h P f ls) {descend : Mem → Block K α → Except Fault (Outcome K α)}
    (hd : Inserts P f ls key data (Behind key) descend) :
    Inserts (BlockOk P) (fun n => n.2.nodes.flatMap f) (leavesInner ls) key data (Behind key) (insertInnerLast h key descend) := by
  rintro m lo ⟨id, ns⟩ hlo hc hmax ⟨hne, hend⟩
  obtain ⟨front, ⟨k, child⟩, rfl⟩ := (List.eq_nil_or_concat ns).resolve_left hne
  rw [List.concat_eq_append] at hc hmax hend ⊢
  change (front ++ [(k, child)]).length < maxNblk at hmax
  obtain ⟨hfront, hk, hchild, -⟩ := chain_append.mp hc
  have hkk : k < key := by
    simpa using hend
  have hmaxk : max k key = key := max_eq_right (le_of_lt hkk)
  simp only [insertInnerLast, List.getLast?_concat, List.dropLast_concat]
  by_cases hfull : child.n = maxNblk
  · rw [if_pos hfull]
    rcases splitBlk_full hv m hfull with ⟨hfail, heq⟩ | ⟨-, m', l, r, heq, hh⟩
    · rw [heq]
      exact ⟨_, rfl, insert_failed hv.inner _ hc (le_of_lt hmax) hfail⟩
    · have hs := split_child (f := f) hc hh
      have hc' := hs.chain
      have heqns : front ++ [(l.lastKey k, l), (k, r)] = (front ++ [(l.lastKey k, l)]) ++ (k, r) :: [] := by
        simp
      rw [heqns] at hs hc'
      obtain ⟨hfront', hk', hr, -⟩ := chain_append.mp hc'
      have hlo' : endKey lo (front ++ [(l.lastKey k, l)]) < key := lt_trans hk' (WithBot.coe_lt_coe.mpr hkk)
      have hrn : r.n < maxNblk := by
        rw [hh.right]
        decide
      obtain ⟨o, ho, hok⟩ := hd m' _ r hlo' hr.chain hrn ⟨hr.ne_nil, lt_of_le_of_lt hr.le (WithBot.coe_lt_coe.mpr hkk)⟩
      have hlen := hs.length
      have hins := insert_child hv id hc' hlo' (Or.inr rfl) (by omega) hok
      rw [hmaxk] at hins
      simp only [heq, bind, Except.bind, ho]
      refine ⟨_, rfl, ?_⟩
      have := hins.split hs
      simpa using this
  · rw [if_neg hfull]
    have hlo' : endKey lo front < key := lt_trans hk (WithBot.coe_lt_coe.mpr hkk)
    obtain ⟨o, ho, hok⟩ := hd m _ child hlo' hchild.chain (lt_of_le_of_ne hchild.max hfull)
      ⟨hchild.ne_nil, lt_of_le_of_lt hchild.le (WithBot.coe_lt_coe.mpr hkk)⟩
    have hins := insert_child hv id hc hlo' (Or.inr rfl) (le_of_lt hmax) hok
    rw [hmaxk] at hins
    simp only [bind, Except.bind, ho]
    exact ⟨_, rfl, hins⟩

theorem insertLeaf_inserts : Inserts (fun _ _ _ => True) (fun n => [n]) (fun b => [b]) key data (fun _ _ => True) (insertLeaf key data) := by
  rintro m lo ⟨id, ns⟩ hlo hc hmax -
  change ns.length < maxNblk at hmax
  have happ := search_append key ns
  have hfront := searchFront_lt key ns
  have hhead := @searchRest_le K V _ key ns
  rw [insertLeaf]
  generalize searchFront key ns = front, searchRest key ns = rest at happ hfront hhead ⊢
  subst happ
  have hpos : Block.n ⟨id, front ++ rest⟩ < maxNblk := hmax
  cases rest with
  | nil =>
      simp only [List.head?_nil, Option.any_none, Bool.false_eq_true, if_false, if_pos hpos]
      exact ⟨_, rfl, insertLeaf_ok front [] id hc hlo hfront (by simp) hmax⟩
  | cons n rest =>
      simp only [List.head?_cons, Option.any_some, decide_eq_true_eq]
      by_cases hlt : key < n.1
      · rw [if_neg (not_not_intro hlt), if_pos hpos]
        refine ⟨_, rfl, insertLeaf_ok front (n :: rest) id hc hlo hfront ?_ hmax⟩
        have hn := (chain_append.mp hc).2.2.2.lt_mem
        exact List.forall_mem_cons.mpr ⟨hlt, fun a ha => lt_trans hlt (WithBot.coe_lt_coe.mp (hn a ha))⟩
      · rw [if_pos hlt]
        have heq : key = n.1 := le_antisymm (hhead rfl) (not_lt.mp hlt)
        refine ⟨_, rfl, rfl, hc, le_max_left _ _, le_refl _, le_of_lt hmax, Relinks.refl m _, .present ?_ ?_⟩
        · rw [heq]
          simp
        · exact level_leaf.content _

theorem insertInner_inserts (hv : Level h P f ls) {descend : Mem → Block K α → Except Fault (Outcome K α)}
    {extend : Mem → Block K (Block K α) → Except Fault (Outcome K (Block K α))}
    (hd : Inserts P f ls key data (fun _ b => b.nodes ≠ []) descend)
    (he : Inserts (BlockOk P) (fun n => n.2.nodes.flatMap f) (leavesInner ls) key data (Behind key) extend) :
    Inserts (BlockOk P) (fun n => n.2.nodes.flatMap f) (leavesInner ls) key data (fun _ b => b.nodes ≠ [])
      (insertInner h key descend extend) := by
  rintro m lo ⟨id, ns⟩ hlo hc hmax hne
  change ns.length < maxNblk at hmax
  have happ := search_append key ns
  have hfront := searchFront_lt key ns
  have hhead := @searchRest_le K (Block K α) _ key ns
  rw [insertInner]
  generalize hf : searchFront key ns = front, hr : searchRest key ns = rest at happ hfront hhead
  cases rest with
  | nil =>
      rw [List.append_nil] at happ
      subst happ
      exact he m lo ⟨id, front⟩ hlo hc hmax ⟨hne, endKey_lt hlo hfront⟩
  | cons n rest =>
      obtain ⟨k, child⟩ := n
      subst happ
      have hkey : key ≤ k := hhead rfl
      have hlo' : endKey lo front < key := endKey_lt hlo hfront
      obtain ⟨-, hk, hchild, -⟩ := chain_append.mp hc
      simp only
      by_cases hfull : child.n = maxNblk
      · rw [if_pos hfull]
        rcases splitBlk_full hv m hfull with ⟨hfail, heq⟩ | ⟨-, m', l, r, heq, hh⟩
        · rw [heq]
          exact ⟨_, rfl, insert_failed hv.inner _ hc (le_of_lt hmax) hfail⟩
        · have hs := split_child (f := f) hc hh
          have hlen := hs.length
          obtain ⟨hcf, hl', hl, hk', hr', hcr⟩ := chain_append.mp hs.chain
          have hln : l.n < maxNblk := by
            rw [hh.left]
            decide
          have hrn : r.n < maxNblk := by
            rw [hh.right]
            decide
          simp only [heq, bind, Except.bind]
          by_cases hlt : l.lastKey k < key
          · rw [if_pos hlt]
            have heqns : front ++ (l.lastKey k, l) :: (k, r) :: rest = (front ++ [(l.lastKey k, l)]) ++ (k, r) :: rest := by
              simp
            have hlast : endKey lo (front ++ [(l.lastKey k, l)]) = l.lastKey k := by
              simp
            obtain ⟨o, ho, hok⟩ := hd m' (l.lastKey k) r (WithBot.coe_lt_coe.mpr hlt) hr'.chain hrn hr'.ne_nil
            have hc' := hs.chain
            rw [heqns] at hc' hlen
            rw [← hlast] at hok
            have hins := insert_child hv id hc' (hlast ▸ WithBot.coe_lt_coe.mpr hlt) (Or.inl hkey) (by omega) hok
            rw [max_eq_left hkey, ← heqns] at hins
            rw [ho]
            refine ⟨_, rfl, ?_⟩
            have := hins.split hs
            simpa using this
          · rw [if_neg hlt]
            obtain ⟨o, ho, hok⟩ := hd m' _ l hlo' hl.chain hln hl.ne_nil
            have hins := insert_child hv id hs.chain hlo' (Or.inl (not_lt.mp hlt)) (by omega) hok
            rw [max_eq_left (not_lt.mp hlt)] at hins
            rw [ho]
            exact ⟨_, rfl, hins.split hs⟩
      · rw [if_neg hfull]
        obtain ⟨o, ho, hok⟩ := hd m _ child hlo' hchild.chain (lt_of_le_of_ne hchild.max hfull) hchild.ne_nil
        have hins := insert_child hv id hc hlo' (Or.inl hkey) (le_of_lt hmax) hok
        rw [max_eq_left hkey] at hins
        simp only [bind, Except.bind, ho]
        exact ⟨_, rfl, hins⟩

end

theorem insertLast_inserts (key : K) (data : V) (h : Nat) :
    Inserts (NodeOk h) (entriesOf h) (leaves h) key data (Behind key) (insertLast key data h) := by
  induction h with
  | zero => exact insertLeafLast_inserts
  | succ h ih => exact insertInnerLast_inserts (level h) ih

/-- The specification of the loop of `ngtcp2_ksl_insert`. -/
theorem insertAt_inserts (key : K) (data : V) (h : Nat) :
    Inserts (NodeOk h) (entriesOf h) (leaves h) key data (fun _ b => h = 0 ∨ b.nodes ≠ []) (insertAt key data h) := by
  induction h with
  | zero =>
      intro m lo blk hlo hc hmax _
      exact insertLeaf_inserts m lo blk hlo hc hmax trivial
  | succ h ih =>
      intro m lo blk hlo hc hmax hne
      refine insertInner_inserts (level h) ?_ (insertInnerLast_inserts (level h) (insertLast_inserts key data h)) m lo blk hlo hc
        hmax (hne.resolve_left (Nat.succ_ne_zero h))
      intro m lo blk hlo hc hmax hne
      exact ih m lo blk hlo hc hmax (Or.inr hne)

end Zngtcp2.SkipList
