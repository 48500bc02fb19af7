import Mathlib.Data.List.TakeWhile
import Mathlib.Order.MinMax
import Mathlib.Order.WithBot
import Zngtcp2.Ksl.Model

namespace Zngtcp2.SkipList

variable {K V α : Type}

/-- The last key, or the bound in front of the nodes. -/
def endKey : WithBot K → List (K × α) → WithBot K
  | lo, [] => lo
  | _, n :: ns => endKey n.1 ns

@[simp]
theorem endKey_append (lo : WithBot K) (as bs : List (K × α)) : endKey lo (as ++ bs) = endKey (endKey lo as) bs := by
  induction as generalizing lo with
  | nil => rfl
  | cons a as ih => exact ih a.1

@[simp]
theorem endKey_nil (lo : WithBot K) : endKey lo ([] : List (K × α)) = lo :=
  rfl

@[simp]
theorem endKey_cons (lo : WithBot K) (n : K × α) (ns : List (K × α)) : endKey lo (n :: ns) = endKey n.1 ns :=
  rfl

theorem endKey_of_ne_nil {ns : List (K × α)} (h : ns ≠ []) (lo lo' : WithBot K) : endKey lo ns = endKey lo' ns := by
  cases ns with
  | nil => exact absurd rfl h
  | cons n ns => rfl

theorem Block.lastKey_eq {b : Block K α} (h : b.nodes ≠ []) (k : K) (lo : WithBot K) : (b.lastKey k : WithBot K) = endKey lo b.nodes := by
  obtain ⟨front, n, hn⟩ := List.eq_nil_or_concat b.nodes |>.resolve_left h
  rw [Block.lastKey, hn, List.concat_eq_append, List.getLast?_concat, endKey_append]
  rfl

theorem minNblk_pos : 0 < minNblk := by
  decide

theorem maxNblk_eq : maxNblk = 2 * minNblk :=
  rfl

theorem Block.ne_nil {b : Block K α} (h : minNblk ≤ b.n) : b.nodes ≠ [] := by
  intro hnil
  have hpos := minNblk_pos
  rw [Block.n, hnil, List.length_nil] at h
  omega

variable [LinearOrder K]

/-- The keys of the nodes increase from `lo` on, and `P` holds of each node, with the key in front
of it as the bound below it. -/
def Chain (P : WithBot K → K → α → Prop) : WithBot K → List (K × α) → Prop
  | _, [] => True
  | lo, n :: ns => lo < n.1 ∧ P lo n.1 n.2 ∧ Chain P n.1 ns

theorem chain_append {P : WithBot K → K → α → Prop} {lo : WithBot K} {as bs : List (K × α)} :
    Chain P lo (as ++ bs) ↔ Chain P lo as ∧ Chain P (endKey lo as) bs := by
  induction as generalizing lo with
  | nil => simp [Chain]
  | cons a as ih =>
      rw [List.cons_append, Chain, ih, Chain, endKey_cons]
      constructor
      · rintro ⟨h₁, h₂, h₃, h₄⟩
        exact ⟨⟨h₁, h₂, h₃⟩, h₄⟩
      · rintro ⟨⟨h₁, h₂, h₃⟩, h₄⟩
        exact ⟨h₁, h₂, h₃, h₄⟩

theorem Chain.le_endKey {P : WithBot K → K → α → Prop} {lo : WithBot K} {ns : List (K × α)} (h : Chain P lo ns) :
    lo ≤ endKey lo ns := by
  induction ns generalizing lo with
  | nil => exact le_refl lo
  | cons n ns ih => exact le_trans (le_of_lt h.1) (ih h.2.2)

theorem Chain.mem_le {P : WithBot K → K → α → Prop} {lo : WithBot K} {ns : List (K × α)} (h : Chain P lo ns) :
    ∀ n ∈ ns, (n.1 : WithBot K) ≤ endKey lo ns := by
  induction ns generalizing lo with
  | nil => simp
  | cons a ns ih => exact List.forall_mem_cons.mpr ⟨h.2.2.le_endKey, ih h.2.2⟩

theorem Chain.lt_mem {P : WithBot K → K → α → Prop} {lo : WithBot K} {ns : List (K × α)} (h : Chain P lo ns) :
    ∀ n ∈ ns, lo < n.1 := by
  induction ns generalizing lo with
  | nil => simp
  | cons a ns ih => exact List.forall_mem_cons.mpr ⟨h.1, fun n hn => lt_trans h.1 (ih h.2.2 n hn)⟩

/-- What the proofs need of the nodes of one height: there are elements below a node, they lie
between the key in front of it and its own, in order, and any key below them may stand in front. -/
structure Keyed (P : WithBot K → K → α → Prop) (f : K × α → List (K × V)) : Prop where
  ne_nil : ∀ {lo : WithBot K} {k : K} {a : α}, P lo k a → f (k, a) ≠ []
  bounds : ∀ {lo : WithBot K} {k : K} {a : α}, lo < k → P lo k a → ∀ e ∈ f (k, a), lo < e.1 ∧ e.1 ≤ k
  sorted : ∀ {lo : WithBot K} {k : K} {a : α}, lo < k → P lo k a → (f (k, a)).Pairwise fun a b => a.1 < b.1
  rebase : ∀ {lo lo' : WithBot K} {k : K} {a : α}, P lo k a → (∀ e ∈ f (k, a), lo' < e.1) → P lo' k a

section

variable {P : WithBot K → K → α → Prop} {f : K × α → List (K × V)}

theorem Chain.bounds (hk : Keyed P f) {lo : WithBot K} {ns : List (K × α)} (h : Chain P lo ns) :
    ∀ e ∈ ns.flatMap f, lo < e.1 ∧ (e.1 : WithBot K) ≤ endKey lo ns := by
  induction ns generalizing lo with
  | nil => simp
  | cons n ns ih =>
      intro e he
      rw [List.flatMap_cons, List.mem_append] at he
      rcases he with he | he
      · obtain ⟨hlt, hle⟩ := hk.bounds h.1 h.2.1 e he
        exact ⟨hlt, le_trans (WithBot.coe_le_coe.mpr hle) h.2.2.le_endKey⟩
      · obtain ⟨hlt, hle⟩ := ih h.2.2 e he
        exact ⟨lt_trans h.1 hlt, hle⟩

theorem Chain.sorted (hk : Keyed P f) {lo : WithBot K} {ns : List (K × α)} (h : Chain P lo ns) :
    (ns.flatMap f).Pairwise fun a b => a.1 < b.1 := by
  induction ns generalizing lo with
  | nil => exact List.Pairwise.nil
  | cons n ns ih =>
      rw [List.flatMap_cons, List.pairwise_append]
      refine ⟨hk.sorted h.1 h.2.1, ih h.2.2, fun a ha b hb => ?_⟩
      have hle := (hk.bounds h.1 h.2.1 a ha).2
      have hlt := (h.2.2.bounds hk b hb).1
      exact lt_of_le_of_lt hle (WithBot.coe_lt_coe.mp hlt)

theorem Chain.rebase (hk : Keyed P f) {lo lo' : WithBot K} {ns : List (K × α)} (h : Chain P lo ns)
    (hlt : ∀ e ∈ ns.flatMap f, lo' < e.1) : Chain P lo' ns := by
  cases ns with
  | nil => trivial
  | cons n ns =>
      have hn : ∀ e ∈ f n, lo' < e.1 := fun e he => hlt e (List.mem_append_left _ he)
      obtain ⟨e, he⟩ := List.exists_mem_of_ne_nil (f n) (hk.ne_nil h.2.1)
      have hle : e.1 ≤ n.1 := (hk.bounds h.1 h.2.1 e he).2
      exact ⟨lt_of_lt_of_le (hn e he) (WithBot.coe_le_coe.mpr hle), hk.rebase h.2.1 hn, h.2.2⟩

theorem Chain.mono (hk : Keyed P f) {lo lo' : WithBot K} {ns : List (K × α)} (hle : lo' ≤ lo) (h : Chain P lo ns) :
    Chain P lo' ns :=
  h.rebase hk fun e he => lt_of_le_of_lt hle (h.bounds hk e he).1

/-- A block that is not the root, below a node with the key `k`. -/
structure BlockOk (P : WithBot K → K → α → Prop) (lo : WithBot K) (k : K) (b : Block K α) : Prop where
  min : minNblk ≤ b.n
  max : b.n ≤ maxNblk
  chain : Chain P lo b.nodes
  le : endKey lo b.nodes ≤ k

theorem BlockOk.ne_nil {lo : WithBot K} {k : K} {b : Block K α} (h : BlockOk P lo k b) : b.nodes ≠ [] :=
  Block.ne_nil h.min

theorem blockOk_keyed (hk : Keyed P f) : Keyed (BlockOk P) (fun n : K × Block K α => n.2.nodes.flatMap f) := by
  constructor
  · intro lo k b h
    obtain ⟨n, ns, hn⟩ := List.exists_cons_of_ne_nil h.ne_nil
    have hc := h.chain
    rw [hn] at hc
    rw [hn, List.flatMap_cons]
    exact List.append_ne_nil_of_left_ne_nil (hk.ne_nil hc.2.1) _
  · intro lo k b _ h e he
    obtain ⟨hlt, hle⟩ := h.chain.bounds hk e he
    exact ⟨hlt, WithBot.coe_le_coe.mp (le_trans hle h.le)⟩
  · intro lo k b _ h
    exact h.chain.sorted hk
  · intro lo lo' k b h hlt
    exact ⟨h.min, h.max, h.chain.rebase hk hlt, endKey_of_ne_nil h.ne_nil lo lo' ▸ h.le⟩

theorem Chain.lt_endKey {lo : WithBot K} {ns : List (K × α)} (h : Chain P lo ns) (hne : ns ≠ []) : lo < endKey lo ns := by
  obtain ⟨n, ns, rfl⟩ := List.exists_cons_of_ne_nil hne
  exact lt_of_lt_of_le h.1 h.2.2.le_endKey

/-- The nodes of two neighbours follow one another. -/
theorem Chain.joined (hk : Keyed P f) {lo : WithBot K} {lk rk : K} {l r : Block K α} {rest : List (K × Block K α)}
    (h : Chain (BlockOk P) lo ((lk, l) :: (rk, r) :: rest)) :
    Chain P lo (l.nodes ++ r.nodes) ∧ endKey lo (l.nodes ++ r.nodes) ≤ rk := by
  obtain ⟨-, hl, -, hr, -⟩ := h
  constructor
  · exact chain_append.mpr ⟨hl.chain, hr.chain.mono hk hl.le⟩
  · rw [endKey_append, endKey_of_ne_nil hr.ne_nil _ (lk : WithBot K)]
    exact hr.le

/-- The nodes that follow one another may be cut into two neighbours. -/
theorem Chain.cut {lo : WithBot K} {k k' : K} {l r : Block K α} {rest : List (K × Block K α)}
    (h : Chain P lo (l.nodes ++ r.nodes)) (hle : endKey lo (l.nodes ++ r.nodes) ≤ k)
    (hl : minNblk ≤ l.n ∧ l.n ≤ maxNblk) (hr : minNblk ≤ r.n ∧ r.n ≤ maxNblk) (hrest : Chain (BlockOk P) k rest) :
    Chain (BlockOk P) lo ((l.lastKey k', l) :: (k, r) :: rest) := by
  obtain ⟨hcl, hcr⟩ := chain_append.mp h
  have hlne := Block.ne_nil hl.1
  have hlast := Block.lastKey_eq hlne k' lo
  rw [endKey_append] at hle
  rw [← hlast] at hcr hle
  refine ⟨?_, ⟨hl.1, hl.2, hcl, le_of_eq hlast.symm⟩, ?_, ⟨hr.1, hr.2, hcr, hle⟩, hrest⟩
  · exact lt_of_lt_of_eq (hcl.lt_endKey hlne) hlast.symm
  · exact lt_of_lt_of_le (hcr.lt_endKey (Block.ne_nil hr.1)) hle

end

/-- What a node of a block of height `h` satisfies. -/
def NodeOk : (h : Nat) → WithBot K → K → Node K V h → Prop
  | 0 => fun _ _ _ => True
  | h + 1 => BlockOk (NodeOk h)

/-- The elements below a node. -/
def entriesOf : (h : Nat) → K × Node K V h → List (K × V)
  | 0 => fun n => [n]
  | h + 1 => fun n => n.2.nodes.flatMap (entriesOf h)

theorem keyed (h : Nat) : Keyed (NodeOk (K := K) (V := V) h) (entriesOf h) := by
  induction h with
  | zero =>
      refine ⟨fun _ => List.cons_ne_nil _ _, ?_, ?_, fun _ _ => trivial⟩
      · intro lo k a hlo _ e he
        rw [List.mem_singleton.mp he]
        exact ⟨hlo, le_refl k⟩
      · intro lo k a _ _
        exact List.pairwise_singleton _ _
  | succ h ih => exact blockOk_keyed ih

section

variable {lo : WithBot K} {key : K} {ns : List (K × α)}

theorem search_append (key : K) (ns : List (K × α)) : searchFront key ns ++ searchRest key ns = ns :=
  List.takeWhile_append_dropWhile

theorem searchFront_lt (key : K) (ns : List (K × α)) : ∀ n ∈ searchFront key ns, n.1 < key := by
  intro n hn
  simpa using List.mem_takeWhile_imp hn

theorem searchRest_le {n : K × α} {rest : List (K × α)} (h : searchRest key ns = n :: rest) : key ≤ n.1 := by
  induction ns with
  | nil => cases h
  | cons a ns ih =>
      rw [searchRest, List.dropWhile_cons] at h
      split at h
      next _ => exact ih h
      next ha =>
          cases h
          simpa using ha

theorem endKey_lt (hlo : lo < key) (h : ∀ n ∈ ns, n.1 < key) : endKey lo ns < key := by
  induction ns generalizing lo with
  | nil => exact hlo
  | cons n ns ih =>
      exact ih (WithBot.coe_lt_coe.mpr (h n List.mem_cons_self)) fun a ha => h a (List.mem_cons_of_mem n ha)

end

end Zngtcp2.SkipList
