import Mathlib.Data.List.Nodup
import Zngtcp2.Ksl.State

namespace Zngtcp2.SkipList

variable {K V α : Type} [LinearOrder K]

/-- The parts of a sorted list around a key. -/
theorem search_eq {front rest : List (K × V)} {key : K} (hfront : ∀ e ∈ front, e.1 < key) (hrest : ∀ e ∈ rest, key ≤ e.1) :
    searchFront key (front ++ rest) = front ∧ searchRest key (front ++ rest) = rest := by
  induction front with
  | nil =>
      cases rest with
      | nil => exact ⟨rfl, rfl⟩
      | cons e rest =>
          have hnot : ¬e.1 < key := not_lt.mpr (hrest e List.mem_cons_self)
          exact ⟨List.takeWhile_cons_of_neg (by simpa using hnot), List.dropWhile_cons_of_neg (by simpa using hnot)⟩
  | cons e front ih =>
      have hlt : e.1 < key := hfront e List.mem_cons_self
      obtain ⟨h₁, h₂⟩ := ih fun a ha => hfront a (List.mem_cons_of_mem e ha)
      constructor
      · rw [searchFront, List.cons_append, List.takeWhile_cons_of_pos (by simpa using hlt)]
        exact congrArg (e :: ·) h₁
      · rw [searchRest, List.cons_append, List.dropWhile_cons_of_pos (by simpa using hlt)]
        exact h₂

theorem RootOk.ne_nil {h : Nat} {t : Tree K V h} (hr : RootOk h t) : h = 0 ∨ t.nodes ≠ [] := by
  refine hr.min.imp_right fun htwo hnil => ?_
  rw [Block.n, hnil] at htwo
  simp at htwo

namespace Ksl

variable {s : Ksl K V}

theorem Ok.lowerBound (h : s.Ok) (key : K) :
    ∃ it, s.lowerBound key = .ok it ∧ s.iterate it = some (searchRest key s.entries) := by
  rw [Ksl.lowerBound]
  cases hr : s.root with
  | none =>
      refine ⟨none, rfl, ?_⟩
      have hnil : s.entries = [] := by
        rw [entries, leafList, hr]
        rfl
      rw [hnil]
      simp [iterate, collect, searchRest]
  | some r =>
      obtain ⟨k, t⟩ := r
      have hroot := h.root k t hr
      obtain ⟨it, hit, front, rest, heq, hfront, hrest, hmarks⟩ :=
        lowerBoundAt_bounds key s.mem k ⊥ t (WithBot.bot_lt_coe key) hroot.chain hroot.ne_nil
      have hl : s.leafList = leaves k t := by
        rw [leafList, hr]
        rfl
      rw [← hl] at heq hmarks
      refine ⟨some it, by simp [hit, bind, Except.bind], ?_⟩
      rw [h.iterate_marks hmarks, entries, heq, (search_eq hfront hrest).2]

/-- How `ngtcp2_ksl_insert` ends, where the elements were `es`. -/
inductive Inserted (key : K) (data : V) (alloc : List Bool) (es : List (K × V)) (s : Ksl K V) : Rv → Option It → Prop
  | inserted {front rest : List (K × V)} {it : Option It} (split : es = front ++ rest) (lt : ∀ e ∈ front, e.1 < key)
      (gt : ∀ e ∈ rest, key < e.1) (eq : s.entries = front ++ (key, data) :: rest)
      (iterate : s.iterate it = some ((key, data) :: rest)) : Inserted key data alloc es s .ok it
  | present {it : Option It} (mem : key ∈ es.map Prod.fst) (eq : s.entries = es) (iterate : s.iterate it = some []) :
      Inserted key data alloc es s .invalidArgument it
  | nomem (failed : false ∈ alloc) (eq : s.entries = es) : Inserted key data alloc es s .nomem none

theorem insertRoot_spec (key : K) (data : V) {h : Nat} {m : Mem} {t : Tree K V h}
    (hs : Ok { s with root := some ⟨h, t⟩, mem := m }) (hn : t.n < maxNblk) :
    ∃ s' rv it, s.insertRoot key data h m t = .ok (s', rv, it) ∧ s'.Ok ∧
      Inserted key data m.alloc (content (leaves h t)) s' rv it := by
  have hroot := hs.root h t rfl
  obtain ⟨o, ho, hok⟩ := insertAt_inserts key data h m ⊥ t (WithBot.bot_lt_coe key) hroot.chain hn hroot.ne_nil
  have hchained : Chained o.mem (ids (leaves h o.blk)) := by
    have := hok.relinks.chained [] []
    simp only [List.nil_append, List.append_nil] at this
    exact this hs.chained
  have hfront : s.front = (ids (leaves h o.blk)).head? := hs.front.trans hok.relinks.head.symm
  have hmin : h = 0 ∨ 2 ≤ o.blk.n := hroot.min.imp_right fun htwo => le_trans htwo hok.min
  have hlen : s.n = (content (leaves h t)).length := hs.n
  have hfinish : ∀ n, n = (content (leaves h o.blk)).length → Ok { s with root := some ⟨h, o.blk⟩, mem := o.mem, n := n } := by
    intro n hn
    refine ⟨hs.lost, hfront, hn, hchained, ?_⟩
    rintro _ _ ⟨⟩
    exact ⟨hok.chain, hok.max, hmin⟩
  have hres := hok.result
  rw [← (level h).content] at hres
  simp only [insertRoot, ho, bind, Except.bind]
  generalize o.rv = rv, o.it = it at hres ⊢
  cases hres with
  | @inserted front rest it split lt gt eq marks =>
      have hok' := hfinish (s.n + 1) (by rw [eq, hlen, split]; simp only [List.length_append, List.length_cons]; omega)
      exact ⟨_, _, _, rfl, hok', .inserted split lt gt eq (hok'.iterate_marks marks)⟩
  | present mem eq =>
      have hok' := hfinish s.n (by rw [eq, hlen])
      exact ⟨_, _, _, rfl, hok', .present mem eq hok'.iterate_end⟩
  | nomem failed eq =>
      have hok' := hfinish s.n (by rw [eq, hlen])
      exact ⟨_, _, _, rfl, hok', .nomem failed eq⟩

/-- The root has as many nodes as there may be. -/
def full (s : Ksl K V) : Prop :=
  ∃ h t, s.root = some ⟨h, t⟩ ∧ t.n = maxNblk

/-- The first allocation succeeds and the second one fails. -/
def SecondFails (alloc : List Bool) : Prop :=
  alloc.head? = some true ∧ alloc.tail.head? = some false

theorem secondFails_iff {alloc : List Bool} : SecondFails alloc ↔ alloc.head? ≠ some false ∧ alloc.tail.head? = some false := by
  refine and_congr_left fun hsecond => ?_
  cases alloc with
  | nil => cases hsecond
  | cons b alloc => cases b <;> simp

/-- What `ksl_split_root` does. -/
theorem splitRoot_cases {h : Nat} (m : Mem) (key : K) {t : Tree K V h} (hn : t.n = maxNblk) :
    (m.alloc.head? = some false ∧ splitRoot h m key t = .ok ⟨{ m with alloc := m.alloc.tail }, t, none, none⟩) ∨
      m.alloc.head? ≠ some false ∧ ∃ m' l r, Halves (leaves h) m t m' l r ∧
        ((m.alloc.tail.head? = some false ∧
            splitRoot h m key t = .ok ⟨{ m' with alloc := m'.alloc.tail }, l, some r, none⟩) ∨
          m.alloc.tail.head? ≠ some false ∧ ∃ m'' id, m''.links 0 = m'.links 0 ∧ m''.back = m'.back ∧ m'.fresh ≤ m''.fresh ∧ m''.alloc = m'.alloc.tail ∧
            splitRoot h m key t = .ok ⟨m'', l, none, some ⟨id, [(l.lastKey key, l), (r.lastKey key, r)]⟩⟩) := by
  rcases splitBlk_full (level h) m hn with ⟨hfail, heq⟩ | ⟨hok, m', l, r, heq, hh⟩
  · exact Or.inl ⟨hfail, by simp only [splitRoot, heq, bind, Except.bind]⟩
  · refine Or.inr ⟨hok, m', l, r, hh, ?_⟩
    rcases m'.new_cases with ⟨hfail, hnew⟩ | ⟨hsecond, hnew⟩
    · rw [hh.alloc] at hfail
      exact Or.inl ⟨hfail, by simp only [splitRoot, heq, bind, Except.bind, hnew]⟩
    · rw [hh.alloc] at hsecond
      refine Or.inr ⟨hsecond, Mem.alone { m' with fresh := m'.fresh + 1, alloc := m'.alloc.tail } (h + 1) m'.fresh, m'.fresh, ?_, ?_, ?_, ?_,
        by simp only [splitRoot, heq, bind, Except.bind, hnew]⟩
      · simp [Mem.alone]
      · rfl
      · exact Nat.le_succ _
      · rfl

/-- The new root above the two halves. -/
theorem rootOk_halves {h : Nat} {m m' : Mem} {key : K} {t l r : Tree K V h} {id : Nat} (hr : RootOk h t)
    (hh : Halves (leaves h) m t m' l r) : RootOk (h + 1) ⟨id, [(l.lastKey key, l), (r.lastKey key, r)]⟩ := by
  have hmax : minNblk ≤ maxNblk := by
    decide
  have hrne : r.nodes ≠ [] := Block.ne_nil (le_of_eq hh.right.symm)
  have hc := hr.chain
  rw [← hh.nodes] at hc
  refine ⟨hc.cut ?_ ⟨?_, ?_⟩ ⟨?_, ?_⟩ trivial, ?_, Or.inr (le_refl 2)⟩
  · rw [endKey_append, Block.lastKey_eq hrne key]
  · exact le_of_eq hh.left.symm
  · rwa [hh.left]
  · exact le_of_eq hh.right.symm
  · rwa [hh.right]
  · change 2 ≤ maxNblk
    decide

theorem insertBelow_spec (key : K) (data : V) {h : Nat} {m : Mem} {t : Tree K V h}
    (hs : Ok { s with root := some ⟨h, t⟩, mem := m }) (hsafe : ¬(t.n = maxNblk ∧ SecondFails m.alloc)) :
    ∃ s' rv it, s.insertBelow key data h m t = .ok (s', rv, it) ∧ s'.Ok ∧
      Inserted key data m.alloc (content (leaves h t)) s' rv it := by
  have hroot := hs.root h t rfl
  rw [insertBelow]
  by_cases hn : t.n = maxNblk
  · rw [if_pos hn]
    rcases splitRoot_cases m key hn with ⟨hfail, heq⟩ | ⟨hfirst, m', l, r, hh, ⟨hfail, -⟩ | ⟨-, m'', id, hl, hb, hf, ha, heq⟩⟩
    · simp only [heq, bind, Except.bind, Option.elim_none, List.append_nil]
      refine ⟨_, _, _, rfl, ⟨hs.lost, hs.front, hs.n, ?_, hs.root⟩, .nomem (List.mem_of_head? hfail) rfl⟩
      exact ⟨hs.chained.nodup, hs.chained.fresh, hs.chained.linked, hs.chained.back⟩
    · exact absurd ⟨hn, secondFails_iff.mpr ⟨hfirst, hfail⟩⟩ hsafe
    · have hrel : Relinks m (ids (leaves h t)) m'' (ids (leaves h l) ++ ids (leaves h r)) :=
        hh.relinks.trans (Relinks.of_eq hl hb hf _)
      have hleaves : leaves (h + 1) ⟨id, [(l.lastKey key, l), (r.lastKey key, r)]⟩ = leaves h l ++ leaves h r := by
        change leavesOf (leaves h) [(l.lastKey key, l), (r.lastKey key, r)] = _
        simp
      have hcontent : content (leaves h l ++ leaves h r) = content (leaves h t) := by
        rw [content_append, (level h).content, (level h).content, (level h).content, ← List.flatMap_append, hh.nodes]
      have hok : Ok { s with root := some ⟨h + 1, ⟨id, [(l.lastKey key, l), (r.lastKey key, r)]⟩⟩, mem := m'' } := by
        refine ⟨hs.lost, ?_, ?_, ?_, ?_⟩
        · change s.front = (ids (leaves (h + 1) ⟨id, [(l.lastKey key, l), (r.lastKey key, r)]⟩)).head?
          rw [hleaves, ids_append, hrel.head]
          exact hs.front
        · change s.n = (content (leaves (h + 1) ⟨id, [(l.lastKey key, l), (r.lastKey key, r)]⟩)).length
          rw [hleaves, hcontent]
          exact hs.n
        · change Chained m'' (ids (leaves (h + 1) ⟨id, [(l.lastKey key, l), (r.lastKey key, r)]⟩))
          rw [hleaves, ids_append]
          have := hrel.chained [] []
          simp only [List.nil_append, List.append_nil] at this
          exact this hs.chained
        · rintro _ _ ⟨⟩
          exact rootOk_halves hroot hh
      simp only [heq, bind, Except.bind]
      obtain ⟨s', rv, it, hins, hok', hres⟩ := insertRoot_spec key data hok (by change 2 < maxNblk; decide)
      refine ⟨s', rv, it, hins, hok', ?_⟩
      rw [hleaves, hcontent] at hres
      cases hres with
      | inserted split lt gt eq iterate => exact .inserted split lt gt eq iterate
      | present mem eq iterate => exact .present mem eq iterate
      | nomem failed eq =>
          refine .nomem ?_ eq
          rw [ha, hh.alloc] at failed
          exact List.mem_of_mem_tail (List.mem_of_mem_tail failed)
  · rw [if_neg hn]
    exact insertRoot_spec key data hs (lt_of_le_of_ne hroot.max hn)

omit [LinearOrder K] in
theorem entries_of_root {h : Nat} {t : Tree K V h} (hr : s.root = some ⟨h, t⟩) : s.entries = content (leaves h t) := by
  rw [entries, leafList, hr]
  rfl

omit [LinearOrder K] in
theorem entries_of_none (hr : s.root = none) : s.entries = [] := by
  rw [entries, leafList, hr]
  rfl

theorem Ok.withMem (h : s.Ok) {m : Mem} (hlinks : m.links = s.mem.links) (hback : m.back = s.mem.back) (hfresh : m.fresh = s.mem.fresh) :
    Ok { s with mem := m } := by
  refine ⟨h.lost, h.front, h.n, ?_, h.root⟩
  obtain ⟨hnd, hlt, hl, hb⟩ := h.chained
  exact ⟨hnd, fun a ha => hfresh ▸ hlt a ha, hlinks ▸ hl, hback.trans hb⟩

/-- The specification of `ngtcp2_ksl_insert`. -/
theorem Ok.insert (h : s.Ok) (alloc : List Bool) (key : K) (data : V) (hsafe : ¬(s.full ∧ SecondFails alloc)) :
    ∃ s' rv it, s.insert alloc key data = .ok (s', rv, it) ∧ s'.Ok ∧ Inserted key data alloc s.entries s' rv it := by
  have hm : Ok { s with mem := { s.mem with alloc := alloc } } := h.withMem rfl rfl rfl
  rw [Ksl.insert]
  cases hr : s.root with
  | some r =>
      obtain ⟨k, t⟩ := r
      rw [entries_of_root hr]
      apply insertBelow_spec key data
      · rwa [← hr]
      · rintro ⟨hn, hfails⟩
        exact hsafe ⟨⟨k, t, hr, hn⟩, hfails⟩
  | none =>
      have hnil : s.entries = [] := entries_of_none hr
      rcases Mem.new_cases { s.mem with alloc := alloc } with ⟨hfail, hnew⟩ | ⟨-, hnew⟩
      · simp only [hnew]
        have hok : Ok { s with mem := { s.mem with alloc := alloc.tail } } := h.withMem rfl rfl rfl
        rw [hr] at hok
        exact ⟨_, _, _, rfl, hok, .nomem (List.mem_of_head? hfail) ((entries_of_none rfl).trans hnil.symm)⟩
      · simp only [hnew]
        let m : Mem := { Mem.alone { s.mem with fresh := s.mem.fresh + 1, alloc := alloc.tail } 0 s.mem.fresh with back := some s.mem.fresh }
        have hempty : Ok { s with front := some s.mem.fresh, root := some ⟨0, ⟨s.mem.fresh, []⟩⟩, mem := m } := by
          refine ⟨h.lost, rfl, ?_, ⟨?_, ?_, ⟨?_, ?_, trivial⟩, rfl⟩, ?_⟩
          · have := h.n
            rwa [hnil] at this
          · exact List.pairwise_singleton _ _
          · intro a ha
            rw [List.mem_singleton.mp ha]
            exact Nat.lt_succ_self _
          · simp [m, Mem.alone]
          · simp [m, Mem.alone]
          · rintro _ _ ⟨⟩
            exact ⟨trivial, Nat.zero_le _, Or.inl rfl⟩
        obtain ⟨s', rv, it, heq, hok, hres⟩ := @insertBelow_spec K V _ { s with front := some s.mem.fresh } key data 0 m
          ⟨s.mem.fresh, []⟩ hempty fun hsafe => absurd hsafe.1 (by decide : ¬(0 = maxNblk))
        refine ⟨s', rv, it, heq, hok, ?_⟩
        rw [hnil]
        cases hres with
        | inserted split lt gt eq iterate => exact .inserted split lt gt eq iterate
        | present mem eq iterate => exact .present mem eq iterate
        | nomem failed eq => exact .nomem (List.mem_of_mem_tail failed) eq

/-- Where there is no memory for a new root, the invariant is lost: half of the elements are not
below the root any more. -/
theorem insert_secondFails (h : s.Ok) (hfull : s.full) {alloc : List Bool} (hfails : SecondFails alloc) (key : K) (data : V) :
    ∃ s', s.insert alloc key data = .ok (s', .nomem, none) ∧ ¬s'.Ok := by
  obtain ⟨k, t, hr, hn⟩ := hfull
  have hroot := h.root k t hr
  obtain ⟨hfirst, hsecond⟩ := secondFails_iff.mp hfails
  rw [Ksl.insert, hr]
  simp only [insertBelow, if_pos hn]
  rcases splitRoot_cases { s.mem with alloc := alloc } key hn with
    ⟨hfail, -⟩ | ⟨-, m', l, r, hh, ⟨-, heq⟩ | ⟨hnot, -⟩⟩
  · exact absurd hfail hfirst
  · simp only [heq, bind, Except.bind]
    refine ⟨_, rfl, fun hok => ?_⟩
    have hlen : s.n = (content (leaves k l)).length := hok.n
    have hc := hroot.chain
    rw [h.n, entries_of_root hr, (level k).content, (level k).content, ← hh.nodes, List.flatMap_append, List.length_append] at hlen
    rw [← hh.nodes] at hc
    obtain ⟨n, ns, hns⟩ := List.exists_cons_of_ne_nil (Block.ne_nil (le_of_eq hh.right.symm))
    have hcr := (chain_append.mp hc).2
    rw [hns] at hcr hlen
    have hpos : 0 < (entriesOf k n).length := List.length_pos_of_ne_nil ((level k).keyed.ne_nil hcr.2.1)
    rw [List.flatMap_cons, List.length_append] at hlen
    omega
  · exact absurd hsecond hnot

/-- How `ngtcp2_ksl_remove` ends, where the elements were `es`. -/
inductive Removed (key : K) (es : List (K × V)) (s : Ksl K V) : Rv → Option It → Prop
  | removed {front rest : List (K × V)} {data : V} {it : Option It} (split : es = front ++ (key, data) :: rest)
      (eq : s.entries = front ++ rest) (iterate : s.iterate it = some rest) : Removed key es s .ok it
  | absent {it : Option It} (not : key ∉ es.map Prod.fst) (eq : s.entries = es) : Removed key es s .invalidArgument it

omit [LinearOrder K] in
theorem mergeTwo_cases {h : Nat} (m : Mem) (blk : Block K (Block K α)) :
    (∃ lk rk l r, blk.nodes = [(lk, l), (rk, r)] ∧ l.n = minNblk ∧ r.n = minNblk ∧
        mergeTwo h m blk = .ok (some (m.unlinkAfter h l.id r.id, ⟨l.id, l.nodes ++ r.nodes⟩))) ∨
      mergeTwo h m blk = .ok none ∧ (blk.n = 2 → ∃ n ∈ blk.nodes, n.2.n ≠ minNblk) := by
  rw [mergeTwo]
  split
  next lk l rk r hnodes =>
      by_cases hmin : l.n = minNblk ∧ r.n = minNblk
      · left
        refine ⟨lk, rk, l, r, hnodes, hmin.1, hmin.2, ?_⟩
        simp only [if_pos hmin, mergeBlk_min m hmin.1 hmin.2, bind, Except.bind]
      · right
        rw [if_neg hmin]
        refine ⟨rfl, fun _ => ?_⟩
        rw [hnodes]
        by_cases hl : l.n = minNblk
        · exact ⟨(rk, r), by simp, fun hr => hmin ⟨hl, hr⟩⟩
        · exact ⟨(lk, l), by simp, hl⟩
  next hnodes =>
      right
      refine ⟨rfl, fun htwo => ?_⟩
      obtain ⟨⟨lk, l⟩, ⟨rk, r⟩, heq⟩ := List.length_eq_two.mp htwo
      exact absurd heq (hnodes lk l rk r)

/-- The root after the merge of two small children. -/
theorem mergeRoot_spec {h : Nat} {m : Mem} {t : Tree K V h} (hs : Ok { s with root := some ⟨h, t⟩, mem := m }) :
    ∃ m' h' t', mergeRoot m h t = .ok (m', ⟨h', t'⟩) ∧ Ok { s with root := some ⟨h', t'⟩, mem := m' } ∧
      content (leaves h' t') = content (leaves h t) ∧ Unmerged h' t' := by
  have hroot := hs.root h t rfl
  cases h with
  | zero => exact ⟨m, 0, t, rfl, hs, rfl, trivial⟩
  | succ h =>
      rcases mergeTwo_cases (h := h) m t with ⟨lk, rk, l, r, hnodes, hl, hr, heq⟩ | ⟨heq, hu⟩
      · have hc : Chain (BlockOk (NodeOk h)) ⊥ ((lk, l) :: (rk, r) :: []) := by
          rw [← hnodes]
          exact hroot.chain
        have hleaves : leaves (h + 1) t = leaves h l ++ leaves h r := by
          change leavesOf (leaves h) t.nodes = _
          rw [hnodes]
          simp
        have hcontent : content (leaves h ⟨l.id, l.nodes ++ r.nodes⟩) = content (leaves (h + 1) t) := by
          rw [hleaves, content_append, (level h).content, (level h).content, (level h).content, List.flatMap_append]
        have hrel : Relinks m (ids (leaves (h + 1) t)) (m.unlinkAfter h l.id r.id) (ids (leaves h ⟨l.id, l.nodes ++ r.nodes⟩)) := by
          rw [hleaves, ids_append]
          exact (level h).merge m l r
        have hn : Block.n ⟨l.id, l.nodes ++ r.nodes⟩ = maxNblk := merged_n hl hr
        refine ⟨m.unlinkAfter h l.id r.id, h, ⟨l.id, l.nodes ++ r.nodes⟩, by simp only [mergeRoot, heq, bind, Except.bind], ?_, hcontent, ?_⟩
        · refine ⟨hs.lost, hs.front.trans hrel.head.symm, ?_, ?_, ?_⟩
          · change s.n = (content (leaves h ⟨l.id, l.nodes ++ r.nodes⟩)).length
            rw [hcontent]
            exact hs.n
          · have := hrel.chained [] []
            simp only [List.nil_append, List.append_nil] at this
            exact this hs.chained
          · rintro _ _ ⟨⟩
            refine ⟨(hc.joined (level h).keyed).1, le_of_eq hn, Or.inr ?_⟩
            rw [hn]
            decide
        · cases h with
          | zero => trivial
          | succ h =>
              intro htwo
              rw [hn] at htwo
              exact absurd htwo (by decide)
      · exact ⟨m, h + 1, t, by simp only [mergeRoot, heq, bind, Except.bind], hs, rfl, hu⟩

/-- The specification of `ngtcp2_ksl_remove`. -/
theorem Ok.remove (h : s.Ok) (key : K) :
    ∃ s' rv it, s.remove key = .ok (s', rv, it) ∧ s'.Ok ∧ Removed key s.entries s' rv it := by
  rw [Ksl.remove]
  cases hr : s.root with
  | none =>
      refine ⟨s, _, none, rfl, h, .absent ?_ rfl⟩
      rw [entries_of_none hr]
      simp
  | some r =>
      obtain ⟨k, t⟩ := r
      have hs : Ok { s with root := some ⟨k, t⟩, mem := s.mem } := by
        rwa [← hr]
      obtain ⟨m', k', t', hmerge, hs', hcontent, hu⟩ := mergeRoot_spec hs
      have hroot := hs'.root k' t' rfl
      obtain ⟨o, ho, hok, hmin⟩ := removeAt_root key k' m' t' hroot.chain hroot.min hu
      have hes : s.entries = t'.nodes.flatMap (entriesOf k') := by
        rw [entries_of_root hr, ← hcontent, (level k').content]
      have hchained : Chained o.mem (ids (leaves k' o.blk)) := by
        have := hok.relinks.chained [] []
        simp only [List.nil_append, List.append_nil] at this
        exact this hs'.chained
      have hfinish : ∀ n, n = (content (leaves k' o.blk)).length → Ok { s with root := some ⟨k', o.blk⟩, mem := o.mem, n := n } := by
        intro n hn
        refine ⟨h.lost, hs'.front.trans hok.relinks.head.symm, hn, hchained, ?_⟩
        rintro _ _ ⟨⟩
        exact ⟨hok.chain, le_trans hok.max hroot.max, hmin⟩
      have hres := hok.result
      rw [← hes] at hres
      simp only [hmerge, bind, Except.bind, ho]
      generalize o.rv = rv, o.it = it at hres ⊢
      cases hres with
      | @removed front rest data it split eq marks =>
          have hok' := hfinish (s.n - 1) (by rw [eq, h.n, split]; simp only [List.length_append, List.length_cons]; omega)
          exact ⟨_, _, _, rfl, hok', .removed split eq (hok'.iterate_marks marks)⟩
      | absent not eq =>
          have hok' := hfinish s.n (by rw [eq, h.n])
          exact ⟨_, _, _, rfl, hok', .absent not eq⟩

/-- The leaf that an iterator with an element is at. -/
theorem Ok.get_eq (h : s.Ok) {it : It} {e : K × V} (hget : s.get it = some e) :
    ∃ xs b ys, s.leafList = xs ++ b :: ys ∧ it.blk = b.id ∧ s.leaf it.blk = some b ∧ b.nodes[it.i]? = some e := by
  rw [get, Option.bind_eq_some_iff] at hget
  obtain ⟨b, hleaf, he⟩ := hget
  have hfind := hleaf
  rw [leaf, h.lost, List.append_nil] at hfind
  obtain ⟨xs, ys, hl⟩ := List.append_of_mem (List.mem_of_find?_eq_some hfind)
  have hid := List.find?_some hfind
  exact ⟨xs, b, ys, hl, (of_decide_eq_true hid).symm, hleaf, he⟩

omit [LinearOrder K] in
theorem map_erase_eq {m : Mem} {xs ys : List (Block K V)} {b : Block K V} (hc : Chained m (ids (xs ++ b :: ys))) (i : Nat) :
    ((xs ++ b :: ys).map fun c => if c.id = b.id then ⟨c.id, c.nodes.eraseIdx i⟩ else c) =
      xs ++ ⟨b.id, b.nodes.eraseIdx i⟩ :: ys := by
  have hnd := hc.nodup
  rw [ids_append, ids_cons, List.nodup_append, List.nodup_cons] at hnd
  have hsame : ∀ ls : List (Block K V), (∀ c ∈ ls, c.id ≠ b.id) →
      (ls.map fun c => if c.id = b.id then ⟨c.id, c.nodes.eraseIdx i⟩ else c) = ls := by
    intro ls hne
    refine (List.map_congr_left fun c hmem => ?_).trans (List.map_id ls)
    rw [if_neg (hne c hmem)]
    rfl
  rw [List.map_append, List.map_cons, if_pos rfl, hsame xs, hsame ys]
  · intro c hmem heq
    exact hnd.2.1.1 (heq ▸ List.mem_map_of_mem hmem)
  · intro c hmem heq
    exact hnd.2.2 c.id (List.mem_map_of_mem hmem) b.id List.mem_cons_self heq

/-- The specification of `ngtcp2_ksl_remove_hint`. -/
theorem Ok.removeHint (h : s.Ok) {hint : It} {key : K} {data : V} (hget : s.get hint = some (key, data)) :
    ∃ s' rv it, s.removeHint hint key = .ok (s', rv, it) ∧ s'.Ok ∧ Removed key s.entries s' rv it := by
  obtain ⟨xs, b, ys, hl, hid, hleaf, he⟩ := h.get_eq hget
  have hc := h.chained
  rw [hl] at hc
  rw [Ksl.removeHint, hleaf]
  cases hr : s.root with
  | none =>
      rw [leafList, hr] at hl
      exact absurd hl.symm (by simp)
  | some r =>
      obtain ⟨k, t⟩ := r
      have hroot := h.root k t hr
      have hleaves : leaves k t = xs ++ b :: ys := by
        rw [← hl, leafList, hr]
        rfl
      simp only
      by_cases hmin : (k ≠ 0 ∨ t.id ≠ b.id) ∧ b.n = minNblk
      · rw [if_pos hmin]
        exact h.remove key
      · rw [if_neg hmin]
        obtain ⟨hi, heq⟩ := List.getElem?_eq_some_iff.mp he
        have hi : hint.i < b.n := hi
        have herase : EraseOk (NodeOk k) (leaves k) b.id hint.i ⊥ t (mapLeaf b.id (·.eraseIdx hint.i) k t) ∧
            (k = 0 ∨ 2 ≤ Block.n (mapLeaf b.id (·.eraseIdx hint.i) k t)) := by
          cases k with
          | zero => exact ⟨eraseLeaf_ok hroot.chain, Or.inl rfl⟩
          | succ k =>
              have henough : ∀ c ∈ leaves (k + 1) t, c.id = b.id → minNblk < c.n := by
                intro c hmem hcid
                have hnd : ((leaves (k + 1) t).map Block.id).Nodup := by
                  rw [hleaves]
                  exact hc.nodup
                have hb : b ∈ leaves (k + 1) t := by
                  rw [hleaves]
                  exact List.mem_append_right xs List.mem_cons_self
                have hcb : c = b := List.inj_on_of_nodup_map hnd hmem hb hcid
                subst hcb
                refine lt_of_le_of_ne (leaves_min (k + 1) t hroot.chain (Or.inl (Nat.succ_ne_zero k)) c hmem) fun heq => ?_
                exact hmin ⟨Or.inl (Nat.succ_ne_zero k), heq.symm⟩
              refine ⟨mapLeaf_erases b.id hint.i (k + 1) ⊥ t hroot.chain henough, Or.inr ?_⟩
              rw [mapLeaf_n]
              exact hroot.min.resolve_left (Nat.succ_ne_zero k)
        obtain ⟨hok, hmin'⟩ := herase
        have hleaves' := hok.leaves
        rw [hleaves, map_erase_eq hc] at hleaves'
        have hlen : (b.nodes.eraseIdx hint.i).length = b.n - 1 := List.length_eraseIdx_of_lt hi
        have hsplit : s.entries = (content xs ++ b.nodes.take hint.i) ++ (key, data) :: (b.nodes.drop (hint.i + 1) ++ content ys) := by
          have hb : b.nodes = b.nodes.take hint.i ++ (key, data) :: b.nodes.drop (hint.i + 1) := by
            rw [← heq, ← List.drop_eq_getElem_cons, List.take_append_drop]
          rw [entries, hl, content_append, content_cons]
          nth_rewrite 1 [hb]
          simp
        have hcontent : content (leaves k (mapLeaf b.id (·.eraseIdx hint.i) k t)) =
            (content xs ++ b.nodes.take hint.i) ++ (b.nodes.drop (hint.i + 1) ++ content ys) := by
          rw [hleaves', content_append, content_cons, List.eraseIdx_eq_take_drop_succ]
          simp
        have hs' : Ok { s with root := some ⟨k, mapLeaf b.id (·.eraseIdx hint.i) k t⟩, n := s.n - 1 } := by
          have hids : ids (leaves k (mapLeaf b.id (·.eraseIdx hint.i) k t)) = ids s.leafList := by
            rw [hleaves', hl]
            simp
          refine ⟨h.lost, ?_, ?_, ?_, ?_⟩
          · exact h.front.trans (congrArg List.head? hids.symm)
          · change s.n - 1 = (content (leaves k (mapLeaf b.id (·.eraseIdx hint.i) k t))).length
            rw [hcontent, h.n, hsplit]
            simp only [List.length_append, List.length_cons]
            omega
          · change Chained s.mem (ids (leaves k (mapLeaf b.id (·.eraseIdx hint.i) k t)))
            rw [hids]
            exact h.chained
          · rintro _ _ ⟨⟩
            exact ⟨hok.chain, le_trans hok.max hroot.max, hmin'⟩
        refine ⟨_, _, _, rfl, hs', .removed hsplit hcontent (hs'.iterate_marks ?_)⟩
        refine ⟨xs, ⟨b.id, b.nodes.eraseIdx hint.i⟩, ys, hint.i, hleaves', ?_, ?_, ?_⟩
        · change hint.i ≤ (b.nodes.eraseIdx hint.i).length
          omega
        · change s.mem.settle b.id hint.i (b.n - 1) = s.mem.settle b.id hint.i (b.nodes.eraseIdx hint.i).length
          rw [hlen]
        · change _ = (b.nodes.eraseIdx hint.i).drop hint.i ++ content ys
          rw [List.eraseIdx_eq_take_drop_succ, List.drop_append_of_le_length]
          · simp
          · simp
            omega

/-- The keys in the inner blocks. -/
def separatorList (s : Ksl K V) : List K :=
  s.root.elim [] fun r => separators r.1 r.2

/-- The specification of `ngtcp2_ksl_update_key`. -/
theorem Ok.updateKey (h : s.Ok) {oldKey newKey : K} (hmem : oldKey ∈ s.entries.map Prod.fst) (hbt : Between oldKey newKey s.entries)
    (hsep : ∀ k ∈ s.separatorList, k < oldKey → k < newKey) :
    ∃ s', s.updateKey oldKey newKey = .ok s' ∧ s'.Ok ∧ s'.entries = s.entries.map (rekey oldKey newKey) := by
  rw [Ksl.updateKey]
  cases hr : s.root with
  | none =>
      rw [entries_of_none hr] at hmem
      cases hmem
  | some r =>
      obtain ⟨k, t⟩ := r
      have hroot := h.root k t hr
      have hes : s.entries = t.nodes.flatMap (entriesOf k) := by
        rw [entries_of_root hr, (level k).content]
      have hseps : s.separatorList = separators k t := by
        rw [separatorList, hr]
        rfl
      rw [hes] at hmem hbt
      rw [hseps] at hsep
      obtain ⟨t', hupd, hok⟩ := updateKeyAt_updates oldKey newKey k ⊥ t (WithBot.bot_lt_coe newKey) hroot.chain hmem hbt hsep
      have hcontent : content (leaves k t') = s.entries.map (rekey oldKey newKey) := by
        rw [(level k).content, hok.content, hes]
      have hids : ids (leaves k t') = ids s.leafList := by
        rw [hok.ids, leafList, hr]
        rfl
      simp only [hupd, bind, Except.bind]
      refine ⟨_, rfl, ⟨h.lost, ?_, ?_, ?_, ?_⟩, hcontent⟩
      · exact h.front.trans (congrArg List.head? hids.symm)
      · change s.n = (content (leaves k t')).length
        rw [hcontent, List.length_map]
        exact h.n
      · change Chained s.mem (ids (leaves k t'))
        rw [hids]
        exact h.chained
      · rintro _ _ ⟨⟩
        exact ⟨hok.chain, le_of_eq_of_le hok.n hroot.max, hroot.min.imp_right fun htwo => le_of_le_of_eq htwo hok.n.symm⟩

theorem ok_of_empty {s : Ksl K V} (hroot : s.root = none) (hlost : s.lost = []) (hfront : s.front = none) (hn : s.n = 0)
    (hback : s.mem.back = none) : s.Ok := by
  have hl : s.leafList = [] := by
    rw [leafList, hroot]
    rfl
  refine ⟨hlost, ?_, ?_, ?_, ?_⟩
  · rw [hl, hfront]
    rfl
  · rw [entries, hl, hn]
    rfl
  · rw [hl]
    exact ⟨List.nodup_nil, fun a ha => absurd ha List.not_mem_nil, trivial, hback⟩
  · intro h t hr
    rw [hroot] at hr
    cases hr

end Ksl

end Zngtcp2.SkipList
