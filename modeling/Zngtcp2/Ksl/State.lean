import Zngtcp2.Ksl.Insert
import Zngtcp2.Ksl.Lookup
import Zngtcp2.Ksl.Remove

namespace Zngtcp2.SkipList

variable {K V α : Type}

section

variable {m : Mem} {xs ys : List (Block K V)} {b : Block K V}

theorem Chained.next_eq (h : Chained m (ids (xs ++ b :: ys))) : (m.links 0).next b.id = (ids ys).head? := by
  have hl := h.linked
  rw [ids_append, ids_cons, linked_append] at hl
  rw [hl.2.2.1, Option.or_none]

theorem Chained.find_eq (h : Chained m (ids (xs ++ b :: ys))) : (xs ++ b :: ys).find? (fun c => c.id = b.id) = some b := by
  have hnd := h.nodup
  rw [ids_append, ids_cons, List.nodup_append] at hnd
  have hnone : xs.find? (fun c => c.id = b.id) = none := by
    rw [List.find?_eq_none]
    intro c hc heq
    exact hnd.2.2 c.id (List.mem_map_of_mem hc) b.id List.mem_cons_self (of_decide_eq_true heq)
  rw [List.find?_append, hnone, Option.none_or, List.find?_cons_of_pos]
  exact decide_eq_true rfl

end

namespace Ksl

variable (s : Ksl K V)

/-- The elements, in the order of the leaves. -/
def entries : List (K × V) :=
  content s.leafList

variable {s}

/-- The iterator is at the index `i` of the leaf `b`, in front of the leaves `ys`. It is at the end
of a leaf only if this is the last one. -/
structure Points (s : Ksl K V) (it : It) (b : Block K V) (ys : List (Block K V)) : Prop where
  leaf : ∃ xs, s.leafList = xs ++ b :: ys
  blk : it.blk = b.id
  le : it.i ≤ b.n
  last : it.i = b.n → ys = []

theorem collect_eq (hc : Chained s.mem (ids s.leafList)) (hlost : s.lost = []) {fuel : Nat} {it : It} {b : Block K V}
    {ys : List (Block K V)} (hp : s.Points it b ys) (hne : ∀ c ∈ ys, c.nodes ≠ [])
    (hfuel : (b.nodes.drop it.i ++ content ys).length < fuel) :
    s.collect fuel (some it) = some (b.nodes.drop it.i ++ content ys) := by
  induction fuel generalizing it b ys with
  | zero => exact absurd hfuel (Nat.not_lt_zero _)
  | succ fuel ih =>
      obtain ⟨⟨xs, hxs⟩, hblk, hle, hlast⟩ := hp
      obtain ⟨id, i⟩ := it
      simp only at hblk hle hlast hfuel ⊢
      subst hblk
      have hc' := hc
      rw [hxs] at hc'
      have hleaf : s.leaf b.id = some b := by
        rw [leaf, hlost, List.append_nil, hxs]
        exact hc'.find_eq
      have hnext := hc'.next_eq
      rw [collect]
      simp only [hleaf, Option.bind_eq_bind, Option.bind_some]
      by_cases hend : i = b.n
      · have hys := hlast hend
        subst hys
        rw [if_pos ⟨hend, hnext⟩, hend]
        simp [Block.n]
      · rw [if_neg fun h => hend h.1]
        have hlt : i < b.nodes.length := lt_of_le_of_ne hle hend
        rw [List.getElem?_eq_getElem hlt, Option.bind_some]
        have hdrop : b.nodes.drop i = b.nodes[i] :: b.nodes.drop (i + 1) := List.drop_eq_getElem_cons hlt
        rw [hdrop, List.cons_append, List.length_cons] at hfuel
        have hrest : s.collect fuel (some (s.mem.settle b.id (i + 1) b.n)) = some (b.nodes.drop (i + 1) ++ content ys) := by
          rw [Mem.settle]
          by_cases hlast' : i + 1 = b.n
          · rw [if_pos hlast', hnext]
            cases ys with
            | nil => exact ih ⟨⟨xs, hxs⟩, rfl, le_of_eq hlast', fun _ => rfl⟩ hne (by simpa using hfuel)
            | cons c ys =>
                have hcne : c.nodes ≠ [] := hne c List.mem_cons_self
                have hdrop' : b.nodes.drop (i + 1) = [] := List.drop_eq_nil_of_le (le_of_eq hlast'.symm)
                rw [hdrop', List.nil_append] at hfuel ⊢
                have hp' : s.Points ⟨c.id, 0⟩ c ys := by
                  refine ⟨⟨xs ++ [b], by simp [hxs]⟩, rfl, Nat.zero_le _, fun h => ?_⟩
                  exact absurd (List.length_eq_zero_iff.mp h.symm) hcne
                have := ih hp' (fun d hd => hne d (List.mem_cons_of_mem c hd)) (by simpa using hfuel)
                simpa using this
          · rw [if_neg hlast']
            exact ih ⟨⟨xs, hxs⟩, rfl, hlt, fun h => absurd h hlast'⟩ hne (by simpa using hfuel)
        rw [hrest, hdrop]
        rfl

end Ksl

variable [LinearOrder K]

/-- A block that is the root: it may have fewer nodes than the other ones. -/
structure RootOk (h : Nat) (t : Tree K V h) : Prop where
  chain : Chain (NodeOk h) ⊥ t.nodes
  max : t.n ≤ maxNblk
  min : h = 0 ∨ 2 ≤ t.n

section

variable {P : WithBot K → K → α → Prop} {ls : Block K α → List (Block K V)} {lo : WithBot K}

theorem leavesOf_min (hl : ∀ (lo : WithBot K) (c : Block K α), Chain P lo c.nodes → minNblk ≤ c.n → ∀ b ∈ ls c, minNblk ≤ b.n)
    {ns : List (K × Block K α)} (hc : Chain (BlockOk P) lo ns) : ∀ b ∈ leavesOf ls ns, minNblk ≤ b.n := by
  induction ns generalizing lo with
  | nil => simp
  | cons n ns ih =>
      intro b hb
      rw [leavesOf_cons, List.mem_append] at hb
      exact hb.elim (hl lo n.2 hc.2.1.chain hc.2.1.min b) (ih hc.2.2 b)

end

theorem leaves_min {lo : WithBot K} (h : Nat) (t : Tree K V h) (hc : Chain (NodeOk h) lo t.nodes) (hn : h ≠ 0 ∨ minNblk ≤ t.n) :
    ∀ b ∈ leaves h t, minNblk ≤ b.n := by
  induction h generalizing lo with
  | zero =>
      intro b hb
      rw [List.mem_singleton.mp hb]
      exact hn.resolve_left fun h => h rfl
  | succ h ih => exact leavesOf_min (fun lo c hc hmin => ih c hc (Or.inr hmin)) hc

namespace Ksl

/-- The representation invariant. -/
structure Ok (s : Ksl K V) : Prop where
  lost : s.lost = []
  front : s.front = (ids s.leafList).head?
  n : s.n = s.entries.length
  chained : Chained s.mem (ids s.leafList)
  root : ∀ h t, s.root = some ⟨h, t⟩ → RootOk h t

variable {s : Ksl K V}

/-- All leaves have nodes, but for a leaf that is the root. -/
theorem Ok.leaf_ne_nil (h : s.Ok) {xs ys : List (Block K V)} {b : Block K V} (hl : s.leafList = xs ++ b :: ys) :
    (∀ c ∈ ys, c.nodes ≠ []) ∧ (b.nodes = [] → ys = []) := by
  obtain ⟨root, lost, front, n, mem⟩ := s
  cases root with
  | none =>
      have hlen := congrArg List.length hl
      simp [leafList] at hlen
  | some r =>
      obtain ⟨k, t⟩ := r
      have hroot := h.root k t rfl
      change leaves k t = xs ++ b :: ys at hl
      cases k with
      | zero =>
          have hlen := congrArg List.length hl
          have hys : ys = [] := by
            change 1 = _ at hlen
            rw [List.length_append, List.length_cons] at hlen
            exact List.length_eq_zero_iff.mp (by omega)
          subst hys
          exact ⟨fun c hc => (nomatch hc), fun _ => rfl⟩
      | succ k =>
          have hmin := leaves_min (k + 1) t hroot.chain (Or.inl (Nat.succ_ne_zero k))
          rw [hl] at hmin
          refine ⟨fun c hc => Block.ne_nil (hmin c ?_), fun hb => absurd hb (Block.ne_nil (hmin b ?_))⟩
          · exact List.mem_append_right xs (List.mem_cons_of_mem b hc)
          · exact List.mem_append_right xs List.mem_cons_self

theorem Ok.iterate_points (h : s.Ok) {it : It} {b : Block K V} {ys : List (Block K V)} (hp : s.Points it b ys) :
    s.iterate (some it) = some (b.nodes.drop it.i ++ content ys) := by
  obtain ⟨xs, hxs⟩ := hp.leaf
  apply collect_eq h.chained h.lost hp (h.leaf_ne_nil hxs).1
  have hlen : s.entries.length = (content xs).length + (b.nodes.length + (content ys).length) := by
    rw [entries, hxs, content_append, content_cons, List.length_append, List.length_append]
  rw [h.n, hlen, List.length_append, List.length_drop]
  omega

theorem Ok.iterate_marks (h : s.Ok) {it : It} {es : List (K × V)} (hm : Marks s.mem s.leafList it es) :
    s.iterate (some it) = some es := by
  obtain ⟨xs, b, ys, i, hxs, hle, rfl, rfl⟩ := hm
  have hc := h.chained
  rw [hxs] at hc
  rw [Mem.settle, hc.next_eq]
  by_cases hend : i = b.n
  · rw [if_pos hend]
    cases ys with
    | nil => exact h.iterate_points ⟨⟨xs, hxs⟩, rfl, hle, fun _ => rfl⟩
    | cons c ys =>
        have hne : c.nodes ≠ [] := (h.leaf_ne_nil hxs).1 c List.mem_cons_self
        have hp : s.Points ⟨c.id, 0⟩ c ys := by
          refine ⟨⟨xs ++ [b], by simp [hxs]⟩, rfl, Nat.zero_le _, fun h => ?_⟩
          exact absurd (List.length_eq_zero_iff.mp h.symm) hne
        have hdrop : b.nodes.drop i = [] := List.drop_eq_nil_of_le (le_of_eq hend.symm)
        rw [hdrop, List.nil_append]
        exact h.iterate_points hp
  · rw [if_neg hend]
    exact h.iterate_points ⟨⟨xs, hxs⟩, rfl, hle, fun h => absurd h hend⟩

theorem Ok.iterate_begin (h : s.Ok) : s.iterate s.begin = some s.entries := by
  rw [begin, h.front]
  cases hl : s.leafList with
  | nil => simp [entries, hl, iterate, collect]
  | cons b ys =>
      have hp : s.Points ⟨b.id, 0⟩ b ys := by
        refine ⟨⟨[], hl⟩, rfl, Nat.zero_le _, fun hn => ?_⟩
        have hl' : s.leafList = [] ++ b :: ys := hl
        exact (h.leaf_ne_nil hl').2 (List.length_eq_zero_iff.mp hn.symm)
      rw [entries, hl]
      exact h.iterate_points hp

theorem Ok.iterate_end (h : s.Ok) : s.iterate s.end = some [] := by
  rw [«end», h.chained.back]
  rcases List.eq_nil_or_concat s.leafList with hl | ⟨xs, b, hl⟩
  · simp [hl, iterate, collect]
  · rw [List.concat_eq_append] at hl
    have hc := h.chained
    rw [hl] at hc
    have hleaf : s.leaf b.id = some b := by
      rw [leaf, h.lost, List.append_nil, hl]
      exact hc.find_eq
    have hlast : (ids s.leafList).getLast? = some b.id := by
      simp [hl]
    rw [hlast, Option.bind_some, hleaf, Option.map_some]
    have hp : s.Points ⟨b.id, b.n⟩ b [] := ⟨⟨xs, hl⟩, rfl, le_refl _, fun _ => rfl⟩
    have := h.iterate_points hp
    simpa [Block.n] using this

theorem Ok.sorted (h : s.Ok) : s.entries.Pairwise fun a b => a.1 < b.1 := by
  rw [entries, leafList]
  cases hr : s.root with
  | none => exact List.Pairwise.nil
  | some r =>
      have hroot := h.root r.1 r.2 hr
      change (content (leaves r.1 r.2)).Pairwise _
      rw [(level r.1).content]
      exact hroot.chain.sorted (level r.1).keyed

end Ksl

end Zngtcp2.SkipList
