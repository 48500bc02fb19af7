import Zngtcp2.Ksl.Level

namespace Zngtcp2.SkipList

variable {K V α : Type} [LinearOrder K]

/-- How a removal ends, which started with the elements `es` and leaves the leaves `ls`. -/
inductive RemoveResult (key : K) (m : Mem) (es : List (K × V)) (ls : List (Block K V)) : Rv → Option It → Prop
  | removed {front rest : List (K × V)} {data : V} {it : It} (split : es = front ++ (key, data) :: rest)
      (eq : content ls = front ++ rest) (marks : Marks m ls it rest) : RemoveResult key m es ls .ok (some it)
  | absent (not : key ∉ es.map Prod.fst) (eq : content ls = es) : RemoveResult key m es ls .invalidArgument none

theorem RemoveResult.among {key : K} {m : Mem} {es : List (K × V)} {ls : List (Block K V)} {rv : Rv} {it : Option It}
    (h : RemoveResult key m es ls rv it) {xs ys : List (Block K V)} (hlt : ∀ e ∈ content xs, e.1 < key)
    (hgt : ∀ e ∈ content ys, key < e.1) : RemoveResult key m (content xs ++ es ++ content ys) (xs ++ ls ++ ys) rv it := by
  cases h with
  | @removed front rest data it split eq marks =>
      have hsplit : content xs ++ es ++ content ys = (content xs ++ front) ++ (key, data) :: (rest ++ content ys) := by
        simp [split]
      exact .removed hsplit (by simp [eq]) (marks.among xs ys)
  | absent not eq =>
      refine .absent ?_ (by simp [eq])
      simp only [List.map_append, List.mem_append, not_or]
      refine ⟨⟨fun hmem => ?_, not⟩, fun hmem => ?_⟩
      · obtain ⟨e, he, hkey⟩ := List.mem_map.mp hmem
        exact absurd hkey (ne_of_lt (hlt e he))
      · obtain ⟨e, he, hkey⟩ := List.mem_map.mp hmem
        exact absurd hkey (ne_of_gt (hgt e he))

/-- What the proofs need of a removal from a block. -/
structure RemoveOk (P : WithBot K → K → α → Prop) (f : K × α → List (K × V)) (ls : Block K α → List (Block K V)) (key : K)
    (m : Mem) (lo : WithBot K) (blk : Block K α) (o : Outcome K α) : Prop where
  id : o.blk.id = blk.id
  chain : Chain P lo o.blk.nodes
  le : endKey lo o.blk.nodes ≤ endKey lo blk.nodes
  min : blk.n ≤ o.blk.n + 1
  max : o.blk.n ≤ blk.n
  relinks : Relinks m (ids (ls blk)) o.mem (ids (ls o.blk))
  result : RemoveResult key o.mem (blk.nodes.flatMap f) (ls o.blk) o.rv o.it

section

variable {P : WithBot K → K → α → Prop} {f : K × α → List (K × V)} {ls : Block K α → List (Block K V)} {h : Nat}
  {key : K} {m m' : Mem} {lo : WithBot K}

/-- The nodes of the block, with the child that has enough nodes. -/
def Descent.all (d : Descent K α) : List (K × Block K α) :=
  d.nodes d.child

/-- The nodes of an inner block before and after `prepareChild`. -/
structure Prepared (P : WithBot K → K → α → Prop) (f : K × α → List (K × V)) (ls : Block K α → List (Block K V)) (key : K)
    (lo : WithBot K) (m : Mem) (d : Descent K α) (m' : Mem) (d' : Descent K α) : Prop where
  chain : Chain (BlockOk P) lo d'.all
  front : endKey lo d'.front < key
  rest : key ≤ d'.key ∨ d'.rest = []
  child : minNblk < d'.child.n
  le : endKey lo d'.all ≤ endKey lo d.all
  min : d.all.length ≤ d'.all.length + 1
  max : d'.all.length ≤ d.all.length
  relinks : Relinks m (ids (leavesOf ls d.all)) m' (ids (leavesOf ls d'.all))
  content : (d'.all.flatMap fun n => n.2.nodes.flatMap f) = d.all.flatMap fun n => n.2.nodes.flatMap f

theorem remove_child (hv : Level h P f ls) (id : Nat) {d d' : Descent K α} {o : Outcome K α}
    (hp : Prepared P f ls key lo m d m' d') (ho : RemoveOk P f ls key m' (endKey lo d'.front) d'.child o) :
    RemoveOk (BlockOk P) (fun n => n.2.nodes.flatMap f) (leavesInner ls) key m lo ⟨id, d.all⟩
      ⟨o.mem, ⟨id, d'.nodes o.blk⟩, o.rv, o.it⟩ := by
  obtain ⟨hfront, hk, hchild, hrest⟩ := chain_append.mp hp.chain
  have hinner := hv.inner
  have hend : endKey lo (d'.nodes o.blk) = endKey lo d'.all := by
    simp [Descent.nodes, Descent.all]
  have hlen : (d'.nodes o.blk).length = d'.all.length := by
    simp [Descent.nodes, Descent.all]
  constructor
  · rfl
  · refine chain_append.mpr ⟨hfront, hk, ⟨?_, ?_, ho.chain, le_trans ho.le hchild.le⟩, hrest⟩
    · change minNblk ≤ o.blk.n
      have hmin := ho.min
      have := hp.child
      omega
    · exact le_trans ho.max hchild.max
  · change endKey lo (d'.nodes o.blk) ≤ endKey lo d.all
    rw [hend]
    exact hp.le
  · change d.all.length ≤ (d'.nodes o.blk).length + 1
    rw [hlen]
    exact hp.min
  · change (d'.nodes o.blk).length ≤ d.all.length
    rw [hlen]
    exact hp.max
  · have := ho.relinks.among (ids (leavesOf ls d'.front)) (ids (leavesOf ls d'.rest))
    refine hp.relinks.trans ?_
    change Relinks m' (ids (leavesOf ls (d'.nodes d'.child))) o.mem (ids (leavesOf ls (d'.nodes o.blk)))
    simpa only [Descent.nodes, leavesOf_append, leavesOf_cons, ids_append, List.append_assoc] using this
  · have hlt : ∀ e ∈ SkipList.content (leavesOf ls d'.front), e.1 < key := by
      intro e he
      rw [hv.content_leavesOf] at he
      exact WithBot.coe_lt_coe.mp (lt_of_le_of_lt (hfront.bounds hinner.keyed e he).2 hp.front)
    have hgt : ∀ e ∈ SkipList.content (leavesOf ls d'.rest), key < e.1 := by
      intro e he
      rw [hv.content_leavesOf] at he
      rcases hp.rest with hkey | hnil
      · exact lt_of_le_of_lt hkey (WithBot.coe_lt_coe.mp (hrest.bounds hinner.keyed e he).1)
      · rw [hnil] at he
        cases he
    have := ho.result.among hlt hgt
    rw [hv.content_leavesOf, hv.content_leavesOf] at this
    change RemoveResult key o.mem (d.all.flatMap fun n => n.2.nodes.flatMap f) (leavesOf ls (d'.nodes o.blk)) o.rv o.it
    rw [← hp.content]
    simpa only [Descent.all, Descent.nodes, leavesOf_append, leavesOf_cons, List.flatMap_append, List.flatMap_cons,
      List.append_assoc] using this

theorem prepared_self {d : Descent K α} (hc : Chain (BlockOk P) lo d.all) (hfront : endKey lo d.front < key) (hkey : key ≤ d.key)
    (hn : minNblk < d.child.n) : Prepared P f ls key lo m d m d :=
  ⟨hc, hfront, Or.inl hkey, hn, le_refl _, Nat.le_succ _, le_refl _, Relinks.refl m _, rfl⟩

/-- Two neighbours before and after nodes moved from one to the other. -/
structure Balanced (l r l' r' : Block K α) : Prop where
  left_id : l'.id = l.id
  right_id : r'.id = r.id
  nodes : l'.nodes ++ r'.nodes = l.nodes ++ r.nodes
  left : minNblk ≤ l'.n ∧ l'.n ≤ maxNblk
  right : minNblk ≤ r'.n ∧ r'.n ≤ maxNblk

omit [LinearOrder K] in
theorem shiftLeft_balanced {l r : Block K α} (hl : l.n = minNblk) (hr : minNblk < r.n) (hmax : r.n ≤ maxNblk) :
    ∃ l' r' moved, shiftLeft l r = .ok (l', r') ∧ Balanced l r l' r' ∧ moved ≠ [] ∧ l'.nodes = l.nodes ++ moved ∧
      r.nodes = moved ++ r'.nodes := by
  have hnblk := maxNblk_eq
  rw [shiftLeft]
  generalize hn : (l.n + r.n + 1) / 2 - l.n = n
  have hlen : (r.nodes.take n).length = n := by
    rw [List.length_take]
    change min n r.n = n
    omega
  refine ⟨_, _, r.nodes.take n, if_pos ⟨by omega, by omega, by omega, by omega, by omega⟩, ⟨rfl, rfl, ?_, ?_, ?_⟩, ?_, rfl, ?_⟩
  · rw [List.append_assoc, List.take_append_drop]
  · rw [Block.n, List.length_append, hlen]
    change minNblk ≤ l.n + n ∧ l.n + n ≤ maxNblk
    omega
  · rw [Block.n, List.length_drop]
    change minNblk ≤ r.n - n ∧ r.n - n ≤ maxNblk
    omega
  · intro hnil
    rw [hnil, List.length_nil] at hlen
    omega
  · rw [List.take_append_drop]

omit [LinearOrder K] in
theorem shiftRight_balanced {l r : Block K α} (hl : minNblk < l.n) (hr : r.n = minNblk) (hmax : l.n ≤ maxNblk) :
    ∃ l' r' moved, shiftRight l r = .ok (l', r') ∧ Balanced l r l' r' ∧ minNblk < r'.n ∧ l.nodes = l'.nodes ++ moved := by
  have hnblk := maxNblk_eq
  rw [shiftRight]
  generalize hn : (l.n + r.n + 1) / 2 - r.n = n
  have hlen : (l.nodes.drop (l.n - n)).length = n := by
    rw [List.length_drop]
    change l.n - (l.n - n) = n
    omega
  have hrn : Block.n ⟨r.id, l.nodes.drop (l.n - n) ++ r.nodes⟩ = n + r.n := by
    rw [Block.n, List.length_append, hlen]
    rfl
  refine ⟨_, _, l.nodes.drop (l.n - n), if_pos ⟨by omega, by omega, by omega, by omega, by omega⟩, ⟨rfl, rfl, ?_, ?_, ?_⟩, ?_, ?_⟩
  · rw [← List.append_assoc, List.take_append_drop]
  · rw [Block.n, List.length_take]
    change minNblk ≤ min (l.n - n) l.n ∧ min (l.n - n) l.n ≤ maxNblk
    omega
  · omega
  · omega
  · rw [List.take_append_drop]

/-- What balancing two neighbours does to the block above them. -/
theorem Balanced.above (hv : Level h P f ls) {front rest : List (K × Block K α)} {lk rk : K} {l r l' r' : Block K α}
    (hb : Balanced l r l' r') (hc : Chain (BlockOk P) lo (front ++ (lk, l) :: (rk, r) :: rest)) :
    Chain (BlockOk P) lo (front ++ (l'.lastKey lk, l') :: (rk, r') :: rest) ∧
      ids (leavesOf ls (front ++ (l'.lastKey lk, l') :: (rk, r') :: rest)) = ids (leavesOf ls (front ++ (lk, l) :: (rk, r) :: rest)) ∧
      ((front ++ (l'.lastKey lk, l') :: (rk, r') :: rest).flatMap fun n => n.2.nodes.flatMap f) =
        (front ++ (lk, l) :: (rk, r) :: rest).flatMap fun n => n.2.nodes.flatMap f := by
  obtain ⟨hcf, hc'⟩ := chain_append.mp hc
  obtain ⟨hall, hle⟩ := hc'.joined hv.keyed
  rw [← hb.nodes] at hall hle
  refine ⟨chain_append.mpr ⟨hcf, hall.cut hle hb.left hb.right hc'.2.2.2.2⟩, ?_, ?_⟩
  · simp only [leavesOf_append, leavesOf_cons, ids_append]
    rw [← List.append_assoc (ids (ls l')), hv.shift hb.left_id hb.right_id hb.nodes, List.append_assoc]
  · simp only [List.flatMap_append, List.flatMap_cons]
    rw [← List.append_assoc (l'.nodes.flatMap f), ← List.flatMap_append, hb.nodes, List.flatMap_append, List.append_assoc]

theorem shiftFromRight_prepared (hv : Level h P f ls) {front rest : List (K × Block K α)} {k rk : K} {child r : Block K α}
    (hc : Chain (BlockOk P) lo (front ++ (k, child) :: (rk, r) :: rest)) (hfront : endKey lo front < key) (hkey : key ≤ k)
    (hn : child.n = minNblk) (hr : minNblk < r.n) :
    ∃ d', shiftFromRight ⟨front, k, child, (rk, r) :: rest⟩ = .ok d' ∧
      Prepared P f ls key lo m ⟨front, k, child, (rk, r) :: rest⟩ m d' ∧
      d'.all.length = (Descent.all ⟨front, k, child, (rk, r) :: rest⟩).length := by
  obtain ⟨-, -, hchild, -, hrok, -⟩ := chain_append.mp hc
  obtain ⟨l', r', moved, heq, hb, hne, hl', hmoved⟩ := shiftLeft_balanced hn hr hrok.max
  obtain ⟨hc', hids, hcontent⟩ := hb.above hv hc
  have hlen : l'.n = minNblk + moved.length := by
    rw [Block.n, hl', List.length_append, ← hn]
    rfl
  have hpos : 0 < moved.length := List.length_pos_of_ne_nil hne
  refine ⟨⟨front, l'.lastKey k, l', (rk, r') :: rest⟩, ?_, ⟨hc', hfront, Or.inl ?_, ?_, ?_, ?_, ?_, ?_, hcontent⟩, ?_⟩
  · simp only [shiftFromRight, heq, bind, Except.bind]
  · -- the moved nodes have keys behind the old key of the child
    have hlt : (k : WithBot K) < endKey k moved := by
      have hrc := hrok.chain
      rw [hmoved] at hrc
      exact (chain_append.mp hrc).1.lt_endKey hne
    have hlast := Block.lastKey_eq (Block.ne_nil hb.left.1) k k
    rw [hl', endKey_append, endKey_of_ne_nil hne _ (k : WithBot K)] at hlast
    rw [← hlast] at hlt
    exact le_of_lt (lt_of_le_of_lt hkey (WithBot.coe_lt_coe.mp hlt))
  · change minNblk < l'.n
    omega
  · simp [Descent.all, Descent.nodes]
  · simp [Descent.all, Descent.nodes]
  · simp [Descent.all, Descent.nodes]
  · change Relinks m (ids (leavesOf ls (front ++ (k, child) :: (rk, r) :: rest))) m
      (ids (leavesOf ls (front ++ (l'.lastKey k, l') :: (rk, r') :: rest)))
    rw [hids]
    exact Relinks.refl m _
  · simp [Descent.all, Descent.nodes]

theorem shiftFromLeft_prepared (hv : Level h P f ls) {front rest : List (K × Block K α)} {lk k : K} {l child : Block K α}
    (hc : Chain (BlockOk P) lo (front ++ (lk, l) :: (k, child) :: rest)) (hlk : lk < key) (hkey : key ≤ k)
    (hn : child.n = minNblk) (hl : minNblk < l.n) :
    ∃ d', shiftFromLeft ⟨front ++ [(lk, l)], k, child, rest⟩ = .ok d' ∧
      Prepared P f ls key lo m ⟨front ++ [(lk, l)], k, child, rest⟩ m d' ∧
      d'.all.length = (Descent.all ⟨front ++ [(lk, l)], k, child, rest⟩).length := by
  obtain ⟨-, -, hlok, -⟩ := chain_append.mp hc
  obtain ⟨l', r', moved, heq, hb, hmin, hmoved⟩ := shiftRight_balanced hl hn hlok.max
  obtain ⟨hc', hids, hcontent⟩ := hb.above hv hc
  have hassoc : ∀ (n : K × Block K α) (c : Block K α), (front ++ [n]) ++ (k, c) :: rest = front ++ n :: (k, c) :: rest := by
    simp
  have hlast : (l'.lastKey lk : WithBot K) ≤ lk := by
    have hle := hlok.le
    have hlc := hlok.chain
    rw [hmoved] at hlc hle
    rw [endKey_append] at hle
    rw [Block.lastKey_eq (Block.ne_nil hb.left.1) lk (endKey lo front)]
    exact le_trans (chain_append.mp hlc).2.le_endKey hle
  refine ⟨⟨front ++ [(l'.lastKey lk, l')], k, r', rest⟩, ?_, ⟨?_, ?_, Or.inl hkey, hmin, ?_, ?_, ?_, ?_, ?_⟩, ?_⟩
  · simp only [shiftFromLeft, List.getLast?_concat, List.dropLast_concat, heq, bind, Except.bind]
  · rwa [Descent.all, Descent.nodes, hassoc]
  · change endKey lo (front ++ [(l'.lastKey lk, l')]) < key
    rw [endKey_append]
    exact lt_of_le_of_lt hlast (WithBot.coe_lt_coe.mpr hlk)
  · simp [Descent.all, Descent.nodes]
  · simp [Descent.all, Descent.nodes]
  · simp [Descent.all, Descent.nodes]
  · rw [Descent.all, Descent.all, Descent.nodes, Descent.nodes, hassoc, hassoc, hids]
    exact Relinks.refl m _
  · rw [Descent.all, Descent.all, Descent.nodes, Descent.nodes, hassoc, hassoc, hcontent]
  · simp [Descent.all, Descent.nodes]

omit [LinearOrder K] in
theorem mergeBlk_min (m : Mem) {l r : Block K α} (hl : l.n = minNblk) (hr : r.n = minNblk) :
    mergeBlk h m l r = .ok (m.unlinkAfter h l.id r.id, ⟨l.id, l.nodes ++ r.nodes⟩) := by
  rw [mergeBlk, if_pos]
  rw [hl, hr]
  decide

omit [LinearOrder K] in
theorem merged_n {l r : Block K α} (hl : l.n = minNblk) (hr : r.n = minNblk) : Block.n ⟨l.id, l.nodes ++ r.nodes⟩ = maxNblk := by
  rw [Block.n, List.length_append]
  change l.n + r.n = maxNblk
  rw [hl, hr]
  rfl

/-- What merging two neighbours does to the block above them; the key of the merged block does not
have to be the one that the right neighbour had. -/
theorem merge_above (hv : Level h P f ls) {front rest : List (K × Block K α)} {lk rk k : K} {l r : Block K α}
    (hc : Chain (BlockOk P) lo (front ++ (lk, l) :: (rk, r) :: rest)) (hl : l.n = minNblk) (hr : r.n = minNblk) :
    let blk : Block K α := ⟨l.id, l.nodes ++ r.nodes⟩
    Chain (BlockOk P) lo (front ++ (blk.lastKey k, blk) :: rest) ∧
      endKey lo (front ++ (blk.lastKey k, blk) :: rest) ≤ endKey lo (front ++ (lk, l) :: (rk, r) :: rest) ∧
      Relinks m (ids (leavesOf ls (front ++ (lk, l) :: (rk, r) :: rest))) (m.unlinkAfter h l.id r.id)
        (ids (leavesOf ls (front ++ (blk.lastKey k, blk) :: rest))) ∧
      lk < blk.lastKey k := by
  intro blk
  obtain ⟨hcf, hc'⟩ := chain_append.mp hc
  obtain ⟨hall, hle⟩ := hc'.joined hv.keyed
  obtain ⟨hlk, hlok, hlr, hrok, hrest⟩ := hc'
  have hne : blk.nodes ≠ [] := List.append_ne_nil_of_left_ne_nil hlok.ne_nil _
  have hlast : (blk.lastKey k : WithBot K) = endKey (endKey lo front) blk.nodes := Block.lastKey_eq hne k _
  have hblk : blk.n = maxNblk := merged_n hl hr
  have hrk : (blk.lastKey k : WithBot K) ≤ rk := by
    rw [hlast]
    exact hle
  refine ⟨chain_append.mpr ⟨hcf, ?_, ⟨?_, le_of_eq hblk, hall, le_of_eq hlast.symm⟩, ?_⟩, ?_, ?_, ?_⟩
  · exact lt_of_lt_of_eq (hall.lt_endKey hne) hlast.symm
  · rw [hblk]
    decide
  · exact hrest.mono hv.inner.keyed hrk
  · rw [endKey_append, endKey_append]
    cases rest with
    | nil => exact hrk
    | cons n rest => exact le_refl _
  · have := (hv.merge m l r).among (ids (leavesOf ls front)) (ids (leavesOf ls rest))
    simpa only [leavesOf_append, leavesOf_cons, ids_append, List.append_assoc] using this
  · rw [← WithBot.coe_lt_coe, hlast]
    change (lk : WithBot K) < endKey (endKey lo front) (l.nodes ++ r.nodes)
    rw [endKey_append, endKey_of_ne_nil hrok.ne_nil _ (lk : WithBot K)]
    exact hrok.chain.lt_endKey hrok.ne_nil

theorem mergeChild_prepared (hv : Level h P f ls) {top : Bool} {d : Descent K α} (hc : Chain (BlockOk P) lo d.all)
    (hfront : endKey lo d.front < key) (hkey : key ≤ d.key) (hlen : 2 ≤ d.all.length) (hn : d.child.n = minNblk)
    (hright : ∀ n ∈ d.rest.head?, n.2.n = minNblk) (hleft : ∀ n ∈ d.front.getLast?, n.2.n = minNblk)
    (htop : top = true → d.all.length ≠ 2) :
    ∃ m' d', mergeChild h top m d = .ok (m', d') ∧ Prepared P f ls key lo m d m' d' := by
  obtain ⟨front, k, child, rest⟩ := d
  have hall : (Descent.all ⟨front, k, child, rest⟩).length = front.length + (rest.length + 1) := by
    simp [Descent.all, Descent.nodes]
  rw [hall] at hlen htop
  rw [mergeChild, if_neg (by rintro ⟨ht, h1⟩; exact htop ht (by simp only at h1; omega))]
  have hfull : minNblk < maxNblk := by
    decide
  cases rest with
  | cons n rest =>
      obtain ⟨rk, r⟩ := n
      have hr : r.n = minNblk := hright (rk, r) rfl
      obtain ⟨hc', hle, hrel, hlt⟩ := merge_above (m := m) (k := rk) hv hc hn hr
      simp only [mergeBlk_min m hn hr, bind, Except.bind]
      refine ⟨_, _, rfl, hc', hfront, Or.inl (le_trans hkey (le_of_lt hlt)), ?_, hle, ?_, ?_, hrel, ?_⟩
      · exact lt_of_lt_of_eq hfull (merged_n hn hr).symm
      · simp only [Descent.all, Descent.nodes, List.length_append, List.length_cons]
        omega
      · simp [Descent.all, Descent.nodes]
      · simp [Descent.all, Descent.nodes]
  | nil =>
      have hfne : front ≠ [] := by
        intro hnil
        rw [hnil] at hlen
        simp at hlen
      obtain ⟨front, ⟨lk, l⟩, rfl⟩ := (List.eq_nil_or_concat front).resolve_left hfne
      rw [List.concat_eq_append] at *
      have hl : l.n = minNblk := hleft (lk, l) (by simp)
      have hassoc : (front ++ [(lk, l)]) ++ [(k, child)] = front ++ (lk, l) :: (k, child) :: [] := by
        simp
      rw [Descent.all, Descent.nodes, hassoc] at hc
      obtain ⟨hc', hle, hrel, -⟩ := merge_above (m := m) (k := lk) hv hc hl hn
      simp only [List.getLast?_concat, List.dropLast_concat, mergeBlk_min m hl hn, bind, Except.bind]
      refine ⟨_, _, rfl, hc', ?_, Or.inr rfl, ?_, ?_, ?_, ?_, ?_, ?_⟩
      · have hlk := (chain_append.mp hc).2.1
        rw [endKey_append] at hfront
        exact lt_trans hlk hfront
      · exact lt_of_lt_of_eq hfull (merged_n hl hn).symm
      · rwa [Descent.all, Descent.all, Descent.nodes, Descent.nodes, hassoc]
      · simp [Descent.all, Descent.nodes]
      · simp [Descent.all, Descent.nodes]
      · rwa [Descent.all, Descent.all, Descent.nodes, Descent.nodes, hassoc]
      · simp [Descent.all, Descent.nodes]

theorem prepareChild_prepared (hv : Level h P f ls) {top : Bool} {d : Descent K α} (hc : Chain (BlockOk P) lo d.all)
    (hfront : endKey lo d.front < key) (hkey : key ≤ d.key) (hlen : 2 ≤ d.all.length)
    (htop : top = true → d.all.length = 2 → ∃ n ∈ d.all, n.2.n ≠ minNblk) :
    ∃ m' d', prepareChild h top m d = .ok (m', d') ∧ Prepared P f ls key lo m d m' d' ∧
      (top = true → d.all.length = 2 → d'.all.length = 2) := by
  obtain ⟨hcf, hk, hchild, hrest⟩ := chain_append.mp hc
  rw [prepareChild]
  by_cases hn : minNblk < d.child.n
  · rw [if_pos hn]
    exact ⟨m, d, rfl, prepared_self hc hfront hkey hn, fun _ h => h⟩
  have hmin : d.child.n = minNblk := le_antisymm (not_lt.mp hn) hchild.min
  rw [if_neg hn, if_neg (not_not_intro hmin)]
  by_cases hright : d.rest.head?.any fun r => minNblk < r.2.n
  · rw [if_pos hright]
    obtain ⟨front, k, child, rest⟩ := d
    cases rest with
    | nil => cases hright
    | cons n rest =>
        obtain ⟨rk, r⟩ := n
        have hr : minNblk < r.n := by
          simpa using hright
        obtain ⟨d', heq, hp, hlen'⟩ := shiftFromRight_prepared (m := m) hv hc hfront hkey hmin hr
        rw [heq]
        exact ⟨m, d', rfl, hp, fun _ h => hlen'.trans h⟩
  rw [if_neg hright]
  by_cases hleft : d.front.getLast?.any fun l => minNblk < l.2.n
  · rw [if_pos hleft]
    obtain ⟨front, k, child, rest⟩ := d
    have hfne : front ≠ [] := by
      rintro rfl
      cases hleft
    obtain ⟨front, ⟨lk, l⟩, rfl⟩ := (List.eq_nil_or_concat front).resolve_left hfne
    rw [List.concat_eq_append] at *
    have hl : minNblk < l.n := by
      simpa using hleft
    have hassoc : (front ++ [(lk, l)]) ++ (k, child) :: rest = front ++ (lk, l) :: (k, child) :: rest := by
      simp
    rw [Descent.all, Descent.nodes, hassoc] at hc
    have hlk : lk < key := by
      simpa using hfront
    obtain ⟨d', heq, hp, hlen'⟩ := shiftFromLeft_prepared (m := m) hv hc hlk hkey hmin hl
    rw [heq]
    exact ⟨m, d', rfl, hp, fun _ h => hlen'.trans h⟩
  rw [if_neg hleft]
  -- both neighbours have as few nodes as there may be
  have hr : ∀ n ∈ d.rest.head?, n.2.n = minNblk := by
    intro n hmem
    have hle : n.2.n ≤ minNblk := by
      rw [Option.mem_def.mp hmem] at hright
      simpa using hright
    obtain ⟨rest, hrest'⟩ : ∃ rest, d.rest = n :: rest := List.head?_eq_some_iff.mp hmem
    rw [hrest'] at hrest
    exact le_antisymm hle hrest.2.1.min
  have hl : ∀ n ∈ d.front.getLast?, n.2.n = minNblk := by
    intro n hmem
    have hle : n.2.n ≤ minNblk := by
      rw [Option.mem_def.mp hmem] at hleft
      simpa using hleft
    obtain ⟨front, hfront'⟩ : ∃ front, d.front = front ++ [n] := List.getLast?_eq_some_iff.mp hmem
    rw [hfront'] at hcf
    exact le_antisymm hle (chain_append.mp hcf).2.2.1.min
  suffices hne : top = true → d.all.length ≠ 2 by
    obtain ⟨m', d', heq, hp⟩ := mergeChild_prepared (m := m) hv hc hfront hkey hlen hmin hr hl hne
    exact ⟨m', d', heq, hp, fun ht htwo => absurd htwo (hne ht)⟩
  intro ht htwo
  obtain ⟨n, hmem, hne⟩ := htop ht htwo
  have hall : d.all = d.front ++ (d.key, d.child) :: d.rest := rfl
  rw [hall, List.length_append, List.length_cons] at htwo
  rw [hall, List.mem_append, List.mem_cons] at hmem
  rcases hmem with hmem | rfl | hmem
  · have hone : d.front.length = 1 := by
      have := List.length_pos_of_mem hmem
      omega
    obtain ⟨a, ha⟩ := List.length_eq_one_iff.mp hone
    rw [ha, List.mem_singleton] at hmem
    exact hne (hl n (by rw [ha, hmem]; rfl))
  · exact hne hmin
  · have hone : d.rest.length = 1 := by
      have := List.length_pos_of_mem hmem
      omega
    obtain ⟨a, ha⟩ := List.length_eq_one_iff.mp hone
    rw [ha, List.mem_singleton] at hmem
    exact hne (hr n (by rw [ha, hmem]; rfl))

theorem remove_absent (hv : Level h P f ls) (blk : Block K α) (hc : Chain P lo blk.nodes)
    (hnot : key ∉ (blk.nodes.flatMap f).map Prod.fst) :
    RemoveOk P f ls key m lo blk ⟨m, blk, .invalidArgument, none⟩ :=
  ⟨rfl, hc, le_refl _, Nat.le_succ _, le_refl _, Relinks.refl m _, .absent hnot (hv.content blk)⟩

/-- The specification of a removal from a block of one height. -/
def Removes (P : WithBot K → K → α → Prop) (f : K × α → List (K × V)) (ls : Block K α → List (Block K V)) (key : K)
    (guard : Block K α → Prop) (remove : Mem → Block K α → Except Fault (Outcome K α)) : Prop :=
  ∀ (m : Mem) (lo : WithBot K) (blk : Block K α), lo < key → Chain P lo blk.nodes → guard blk →
    ∃ o, remove m blk = .ok o ∧ RemoveOk P f ls key m lo blk o

/-- The key is behind the keys of all nodes. -/
theorem Chain.not_mem (hk : Keyed P f) {ns : List (K × α)} (hc : Chain P lo ns) (hlt : endKey lo ns < key) :
    key ∉ (ns.flatMap f).map Prod.fst := by
  intro hmem
  obtain ⟨e, he, rfl⟩ := List.mem_map.mp hmem
  exact absurd (lt_of_le_of_lt (hc.bounds hk e he).2 hlt) (lt_irrefl _)

theorem removeLeaf_removes : Removes (fun _ _ _ => True) (fun n => [n]) (fun b => [b]) key (fun _ => True)
    (removeLeaf (V := V) key) := by
  rintro m lo ⟨id, ns⟩ hlo hc -
  have happ := search_append key ns
  have hfront := searchFront_lt key ns
  have hhead := @searchRest_le K V _ key ns
  rw [removeLeaf]
  generalize searchFront key ns = front, searchRest key ns = rest at happ hfront hhead ⊢
  subst happ
  cases rest with
  | nil =>
      refine ⟨_, rfl, remove_absent level_leaf _ hc (hc.not_mem level_leaf.keyed ?_)⟩
      rw [List.append_nil]
      exact endKey_lt hlo hfront
  | cons n rest =>
      obtain ⟨k, data⟩ := n
      obtain ⟨hcf, hk, -, hcr⟩ := chain_append.mp hc
      simp only
      by_cases hlt : key < k
      · rw [if_pos hlt]
        refine ⟨_, rfl, remove_absent level_leaf _ hc fun hmem => ?_⟩
        simp only [List.flatMap_singleton', List.mem_map, List.mem_append, List.mem_cons] at hmem
        obtain ⟨e, he | rfl | he, rfl⟩ := hmem
        · exact lt_irrefl _ (hfront e he)
        · exact lt_irrefl _ hlt
        · exact lt_irrefl _ (lt_trans hlt (WithBot.coe_lt_coe.mp (hcr.lt_mem e he)))
      · rw [if_neg hlt]
        have hkey : key = k := le_antisymm (hhead rfl) (not_lt.mp hlt)
        subst hkey
        refine ⟨_, rfl, rfl, ?_, ?_, ?_, ?_, Relinks.refl m _, .removed (List.flatMap_singleton' _) ?_ ?_⟩
        · exact chain_append.mpr ⟨hcf, hcr.mono level_leaf.keyed (le_of_lt hk)⟩
        · change endKey lo (front ++ rest) ≤ endKey lo (front ++ (key, data) :: rest)
          rw [endKey_append, endKey_append, endKey_cons]
          cases rest with
          | nil => exact le_of_lt hk
          | cons n rest => exact le_refl _
        · change (front ++ (key, data) :: rest).length ≤ (front ++ rest).length + 1
          simp only [List.length_append, List.length_cons]
          omega
        · change (front ++ rest).length ≤ (front ++ (key, data) :: rest).length
          simp only [List.length_append, List.length_cons]
          omega
        · simp
        · refine ⟨[], ⟨id, front ++ rest⟩, [], front.length, rfl, ?_, ?_, ?_⟩
          · simp [Block.n]
          · simp [Block.n]
          · simp

/-- A removal from an inner block. The root keeps two nodes if it has them. -/
theorem removeInner_spec (hv : Level h P f ls) {descend : Mem → Block K α → Except Fault (Outcome K α)} (top : Bool)
    (hd : Removes P f ls key (fun b => minNblk < b.n) descend) (blk : Block K (Block K α)) (hlo : lo < key)
    (hc : Chain (BlockOk P) lo blk.nodes) (hlen : 2 ≤ blk.n)
    (htop : top = true → blk.n = 2 → ∃ n ∈ blk.nodes, n.2.n ≠ minNblk) :
    ∃ o, removeInner h key descend top m blk = .ok o ∧
      RemoveOk (BlockOk P) (fun n => n.2.nodes.flatMap f) (leavesInner ls) key m lo blk o ∧
      (top = true → blk.n = 2 → o.blk.n = 2) := by
  obtain ⟨id, ns⟩ := blk
  have happ := search_append key ns
  have hfront := searchFront_lt key ns
  have hhead := @searchRest_le K (Block K α) _ key ns
  rw [removeInner]
  generalize hf : searchFront key ns = front, hr : searchRest key ns = rest at happ hfront hhead
  cases rest with
  | nil =>
      refine ⟨_, rfl, remove_absent hv.inner _ hc (hc.not_mem hv.inner.keyed ?_), fun _ h => h⟩
      rw [← happ, List.append_nil]
      exact endKey_lt hlo hfront
  | cons n rest =>
      obtain ⟨k, child⟩ := n
      subst happ
      obtain ⟨m', d', heq, hp, htwo⟩ := @prepareChild_prepared K V α _ P f ls h key m lo hv top ⟨front, k, child, rest⟩ hc
        (endKey_lt hlo hfront) (hhead rfl) hlen htop
      obtain ⟨o, ho, hok⟩ := hd m' _ d'.child hp.front (chain_append.mp hp.chain).2.2.1.chain hp.child
      simp only [heq, bind, Except.bind, ho]
      refine ⟨_, rfl, remove_child hv id hp hok, fun ht h => ?_⟩
      have hkeep := htwo ht h
      simpa [Block.n, Descent.all, Descent.nodes] using hkeep

end

/-- The specification of the loop of `ngtcp2_ksl_remove` below the root. -/
theorem removeAt_removes (key : K) (h : Nat) :
    Removes (NodeOk h) (entriesOf h) (leaves (V := V) h) key (fun b => minNblk < b.n) (removeAt key h false) := by
  induction h with
  | zero =>
      intro m lo blk hlo hc _
      exact removeLeaf_removes m lo blk hlo hc trivial
  | succ h ih =>
      intro m lo blk hlo hc hn
      have htwo : 2 ≤ minNblk := by
        decide
      obtain ⟨o, ho, hok, -⟩ := removeInner_spec (m := m) (level h) false ih blk hlo hc (le_trans htwo (le_of_lt hn)) fun ht => nomatch ht
      exact ⟨o, ho, hok⟩

/-- The root is not one whose two children have as few nodes as there may be. -/
def Unmerged : (h : Nat) → Tree K V h → Prop
  | 0, _ => True
  | h + 1, t => Block.n t = 2 → ∃ n ∈ (Block.nodes t : List (K × Block K (Node K V h))), n.2.n ≠ minNblk

/-- The specification of the loop of `ngtcp2_ksl_remove` at the root. -/
theorem removeAt_root (key : K) (h : Nat) (m : Mem) (t : Tree K V h) (hc : Chain (NodeOk h) ⊥ t.nodes) (hmin : h = 0 ∨ 2 ≤ t.n)
    (hu : Unmerged h t) :
    ∃ o, removeAt key h true m t = .ok o ∧ RemoveOk (NodeOk h) (entriesOf h) (leaves h) key m ⊥ t o ∧ (h = 0 ∨ 2 ≤ o.blk.n) := by
  cases h with
  | zero =>
      obtain ⟨o, ho, hok⟩ := removeLeaf_removes m ⊥ t (WithBot.bot_lt_coe key) hc trivial
      exact ⟨o, ho, hok, Or.inl rfl⟩
  | succ h =>
      have htwo : 2 ≤ Block.n t := hmin.resolve_left (Nat.succ_ne_zero h)
      obtain ⟨o, ho, hok, hkeep⟩ := removeInner_spec (m := m) (level h) true (removeAt_removes key h) t (WithBot.bot_lt_coe key) hc htwo
        fun _ => hu
      refine ⟨o, ho, hok, Or.inr ?_⟩
      by_cases heq : Block.n t = 2
      · exact le_of_eq (hkeep rfl heq).symm
      · have hlt : 2 < Block.n t := lt_of_le_of_ne htwo (Ne.symm heq)
        have hmin' : Block.n t ≤ o.blk.n + 1 := hok.min
        exact Nat.le_of_lt_succ (lt_of_lt_of_le hlt hmin')

end Zngtcp2.SkipList
