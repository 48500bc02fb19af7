import Zngtcp2.Ksl.Links
import Zngtcp2.Ksl.Order

namespace Zngtcp2.SkipList

variable {K V α : Type}

/-- The addresses of leaves. -/
def ids (ls : List (Block K V)) : List Nat :=
  ls.map Block.id

/-- The elements in leaves. -/
def content (ls : List (Block K V)) : List (K × V) :=
  ls.flatMap Block.nodes

@[simp]
theorem ids_nil : ids ([] : List (Block K V)) = [] :=
  rfl

@[simp]
theorem ids_append (ls ls' : List (Block K V)) : ids (ls ++ ls') = ids ls ++ ids ls' :=
  List.map_append

@[simp]
theorem ids_cons (b : Block K V) (ls : List (Block K V)) : ids (b :: ls) = b.id :: ids ls :=
  rfl

@[simp]
theorem content_nil : content ([] : List (Block K V)) = [] :=
  rfl

@[simp]
theorem content_append (ls ls' : List (Block K V)) : content (ls ++ ls') = content ls ++ content ls' :=
  List.flatMap_append

@[simp]
theorem content_cons (b : Block K V) (ls : List (Block K V)) : content (b :: ls) = b.nodes ++ content ls :=
  List.flatMap_cons

/-- The leaves below the nodes of an inner block. -/
def leavesOf (ls : Block K α → List (Block K V)) (ns : List (K × Block K α)) : List (Block K V) :=
  ns.flatMap fun n => ls n.2

@[simp]
theorem leavesOf_nil (ls : Block K α → List (Block K V)) : leavesOf ls [] = [] :=
  rfl

@[simp]
theorem leavesOf_append (ls : Block K α → List (Block K V)) (ns ns' : List (K × Block K α)) :
    leavesOf ls (ns ++ ns') = leavesOf ls ns ++ leavesOf ls ns' :=
  List.flatMap_append

@[simp]
theorem leavesOf_cons (ls : Block K α → List (Block K V)) (n : K × Block K α) (ns : List (K × Block K α)) :
    leavesOf ls (n :: ns) = ls n.2 ++ leavesOf ls ns :=
  List.flatMap_cons

variable [LinearOrder K]

/-- What the proofs need of the blocks of height `h`: their nodes are in order, `ls` are the leaves
below a block, and what happens to these when blocks are split, merged or balanced. -/
structure Level (h : Nat) (P : WithBot K → K → α → Prop) (f : K × α → List (K × V)) (ls : Block K α → List (Block K V)) :
    Prop where
  keyed : Keyed P f
  content : ∀ b, content (ls b) = b.nodes.flatMap f
  split : ∀ {m m' : Mem} (b : Block K α) (i : Nat), m'.links = m.links → m'.back = m.back → m'.fresh = m.fresh + 1 →
    Relinks m (ids (ls b)) (m'.linkAfter h b.id m.fresh) (ids (ls ⟨b.id, b.nodes.take i⟩) ++ ids (ls ⟨m.fresh, b.nodes.drop i⟩))
  merge : ∀ (m : Mem) (l r : Block K α),
    Relinks m (ids (ls l) ++ ids (ls r)) (m.unlinkAfter h l.id r.id) (ids (ls ⟨l.id, l.nodes ++ r.nodes⟩))
  shift : ∀ {l r l' r' : Block K α}, l'.id = l.id → r'.id = r.id → l'.nodes ++ r'.nodes = l.nodes ++ r.nodes →
    ids (ls l') ++ ids (ls r') = ids (ls l) ++ ids (ls r)

theorem level_leaf : Level 0 (fun _ _ _ => True) (fun n : K × V => [n]) fun b => [b] := by
  constructor
  · exact keyed 0
  · intro b
    simp [SkipList.content]
  · intro m m' b i hlinks hback hfresh
    exact Mem.linkAfter_relinks hlinks hback hfresh
  · intro m l r
    exact Mem.unlinkAfter_relinks m l.id r.id
  · intro l r l' r' hl hr _
    simp [ids, hl, hr]

section

variable {P : WithBot K → K → α → Prop} {f : K × α → List (K × V)} {ls : Block K α → List (Block K V)} {h : Nat}

theorem Level.content_leavesOf (hv : Level h P f ls) (ns : List (K × Block K α)) :
    SkipList.content (leavesOf ls ns) = ns.flatMap fun n => n.2.nodes.flatMap f := by
  induction ns with
  | nil => rfl
  | cons n ns ih => rw [leavesOf_cons, content_append, ih, hv.content, List.flatMap_cons]

theorem Mem.linkAfter_inner {m m' : Mem} (b r : Nat) (xs : List Nat) (hlinks : m'.links = m.links) (hback : m'.back = m.back)
    (hfresh : m'.fresh = m.fresh + 1) : Relinks m xs (m'.linkAfter (h + 1) b r) xs := by
  apply Relinks.of_eq
  · simp [linkAfter, hlinks]
  · simpa [linkAfter] using hback
  · change m.fresh ≤ m'.fresh
    omega

theorem Mem.unlinkAfter_inner (m : Mem) (b r : Nat) (xs : List Nat) : Relinks m xs (m.unlinkAfter (h + 1) b r) xs := by
  apply Relinks.of_eq
  · simp [unlinkAfter]
  · simp [unlinkAfter]
  · exact le_refl m.fresh

theorem Level.inner (hv : Level h P f ls) :
    Level (h + 1) (BlockOk P) (fun n : K × Block K α => n.2.nodes.flatMap f) (leavesInner ls) := by
  constructor
  · exact blockOk_keyed hv.keyed
  · intro b
    exact hv.content_leavesOf b.nodes
  · intro m m' b i hlinks hback hfresh
    have heq : ids (leavesOf ls (b.nodes.take i)) ++ ids (leavesOf ls (b.nodes.drop i)) = ids (leavesOf ls b.nodes) := by
      rw [← ids_append, ← leavesOf_append, List.take_append_drop]
    change Relinks m _ _ (ids (leavesOf ls (b.nodes.take i)) ++ ids (leavesOf ls (b.nodes.drop i)))
    rw [heq]
    exact Mem.linkAfter_inner b.id m.fresh _ hlinks hback hfresh
  · intro m l r
    change Relinks m (ids (leavesOf ls l.nodes) ++ ids (leavesOf ls r.nodes)) _ (ids (leavesOf ls (l.nodes ++ r.nodes)))
    rw [leavesOf_append, ids_append]
    exact Mem.unlinkAfter_inner m l.id r.id _
  · intro l r l' r' _ _ heq
    change ids (leavesOf ls l'.nodes) ++ ids (leavesOf ls r'.nodes) = ids (leavesOf ls l.nodes) ++ ids (leavesOf ls r.nodes)
    rw [← ids_append, ← ids_append, ← leavesOf_append, ← leavesOf_append, heq]

end

theorem level (h : Nat) : Level h (NodeOk (K := K) (V := V) h) (entriesOf h) (leaves h) := by
  induction h with
  | zero => exact level_leaf
  | succ h ih => exact ih.inner

/-- Where an iterator stands among leaves: `es` are the elements from it on. -/
def Marks (m : Mem) (ls : List (Block K V)) (it : It) (es : List (K × V)) : Prop :=
  ∃ xs b ys i, ls = xs ++ b :: ys ∧ i ≤ b.n ∧ it = m.settle b.id i b.n ∧ es = b.nodes.drop i ++ content ys

omit [LinearOrder K] in
theorem Marks.among {m : Mem} {ls : List (Block K V)} {it : It} {es : List (K × V)} (h : Marks m ls it es)
    (xs ys : List (Block K V)) : Marks m (xs ++ ls ++ ys) it (es ++ content ys) := by
  obtain ⟨xs', b, ys', i, rfl, hi, hit, rfl⟩ := h
  exact ⟨xs ++ xs', b, ys' ++ ys, i, by simp, hi, hit, by simp⟩

end Zngtcp2.SkipList
