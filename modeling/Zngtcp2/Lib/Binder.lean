import Mathlib.Tactic.Ring
import Mathlib.Data.List.Nodup

namespace Zngtcp2.Lib.Binder

variable {α : Type}

/-- A message to be sent. The copies of it share a binder. -/
structure Item (α : Type) where
  body : α
  binder : Option Nat
  deriving DecidableEq, Repr

def Item.isAcked (acked : List Nat) (f : Item α) : Bool :=
  f.binder.any (fun b => decide (b ∈ acked))

/-- An acknowledgement of the items: the bodies that were not acknowledged before, and the binders
that are marked then. -/
def ack (acked : List Nat) : List (Item α) → List α × List Nat
  | [] => ([], acked)
  | f :: fs =>
      if f.isAcked acked then ack acked fs
      else
        let r := ack (f.binder.toList ++ acked) fs
        (f.body :: r.1, r.2)

/-- Copies of the items that were not acknowledged: the items, now with a binder, their copies, and
the next binder. -/
def reclaim (acked : List Nat) : List (Item α) → Nat → List (Item α) × List (Item α) × Nat
  | [], n => ([], [], n)
  | f :: fs, n =>
      if f.isAcked acked then
        let r := reclaim acked fs n
        (f :: r.1, r.2.1, r.2.2)
      else
        let g : Item α := ⟨f.body, some (f.binder.getD n)⟩
        let r := reclaim acked fs (if f.binder.isSome then n else n + 1)
        (g :: r.1, g :: r.2.1, r.2.2)

/-- Takes up to `k` items out of the queue, and drops the acknowledged ones on the way. -/
def take (acked : List Nat) : Nat → List (Item α) → List (Item α) × List (Item α)
  | _, [] => ([], [])
  | k, f :: fs =>
      if f.isAcked acked then take acked k fs
      else
        match k with
        | 0 => ([], f :: fs)
        | k + 1 =>
            let r := take acked k fs
            (f :: r.1, r.2)

/-- Two items are copies of one message exactly if they share a binder. -/
def Related (f g : Item α) : Prop :=
  (f.body = g.body → f.binder ≠ none ∧ f.binder = g.binder) ∧ (f.binder ≠ none → f.binder = g.binder → f.body = g.body)

theorem Related.symm {f g : Item α} (h : Related f g) : Related g f := by
  constructor
  · intro hbody
    obtain ⟨hne, heq⟩ := h.1 hbody.symm
    exact ⟨heq ▸ hne, heq.symm⟩
  · intro hne heq
    exact (h.2 (heq ▸ hne) heq.symm).symm

/-- The items that exist, the marked binders, the next binder, the messages that were issued and
those that were acknowledged. -/
structure Linked (items : List (Item α)) (marked : List Nat) (next : Nat) (issued acked : List α) : Prop where
  related : items.Pairwise Related
  lt : ∀ f ∈ items, ∀ b ∈ f.binder, b < next
  marked_lt : ∀ b ∈ marked, b < next
  mem_issued : ∀ f ∈ items, f.body ∈ issued
  mem_acked : ∀ f ∈ items, f.body ∈ acked ↔ f.isAcked marked = true
  sub : ∀ a ∈ acked, a ∈ issued
  nodup : acked.Nodup

variable {items items' : List (Item α)} {marked : List Nat} {next : Nat} {issued acked : List α}

theorem isAcked_iff {marked : List Nat} {f : Item α} : f.isAcked marked = true ↔ ∃ b ∈ marked, f.binder = some b := by
  rw [Item.isAcked]
  cases f.binder with
  | none => simp
  | some b => simp

theorem Linked.perm (h : Linked items marked next issued acked) (hp : items'.Perm items) :
    Linked items' marked next issued acked :=
  ⟨(hp.pairwise_iff Related.symm).mpr h.related, fun f hf => h.lt f (hp.subset hf), h.marked_lt,
    fun f hf => h.mem_issued f (hp.subset hf), fun f hf => h.mem_acked f (hp.subset hf), h.sub, h.nodup⟩

theorem Linked.sublist (h : Linked items marked next issued acked) (hs : items'.Sublist items) :
    Linked items' marked next issued acked :=
  ⟨h.related.sublist hs, fun f hf => h.lt f (hs.subset hf), h.marked_lt, fun f hf => h.mem_issued f (hs.subset hf),
    fun f hf => h.mem_acked f (hs.subset hf), h.sub, h.nodup⟩

/-- A new message is issued. -/
theorem Linked.issue (h : Linked items marked next issued acked) {a : α} (ha : a ∉ issued) :
    Linked (⟨a, none⟩ :: items) marked next (a :: issued) acked where
  related := by
    refine List.pairwise_cons.mpr ⟨fun g hg => ⟨fun hbody => ?_, fun hne => absurd rfl hne⟩, h.related⟩
    rw [show a = g.body from hbody] at ha
    exact absurd (h.mem_issued g hg) ha
  lt := List.forall_mem_cons.mpr ⟨fun b hb => (nomatch hb), h.lt⟩
  marked_lt := h.marked_lt
  mem_issued := List.forall_mem_cons.mpr ⟨List.mem_cons_self, fun f hf => List.mem_cons_of_mem a (h.mem_issued f hf)⟩
  mem_acked := by
    refine List.forall_mem_cons.mpr ⟨⟨fun hmem => absurd (h.sub a hmem) ha, fun hacked => ?_⟩, h.mem_acked⟩
    cases hacked
  sub := fun b hb => List.mem_cons_of_mem a (h.sub b hb)
  nodup := h.nodup

/-- One item is acknowledged that was not acknowledged before. -/
theorem Linked.mark {f : Item α} (h : Linked (f :: items) marked next issued acked) (hf : f.isAcked marked = false) :
    Linked items (f.binder.toList ++ marked) next issued (f.body :: acked) where
  related := h.related.of_cons
  lt := fun g hg => h.lt g (List.mem_cons_of_mem f hg)
  marked_lt := by
    intro b hb
    rcases List.mem_append.mp hb with hb | hb
    · exact h.lt f List.mem_cons_self b (Option.mem_toList.mp hb)
    · exact h.marked_lt b hb
  mem_issued := fun g hg => h.mem_issued g (List.mem_cons_of_mem f hg)
  mem_acked := by
    intro g hg
    have hrel := (List.pairwise_cons.mp h.related).1 g hg
    rw [List.mem_cons, h.mem_acked g (List.mem_cons_of_mem f hg), isAcked_iff, isAcked_iff]
    constructor
    · rintro (hbody | ⟨b, hb, heq⟩)
      · obtain ⟨hne, heq⟩ := hrel.1 hbody.symm
        obtain ⟨b, hb⟩ := Option.ne_none_iff_exists'.mp hne
        exact ⟨b, by simp [hb], heq ▸ hb⟩
      · exact ⟨b, List.mem_append_right _ hb, heq⟩
    · rintro ⟨b, hb, heq⟩
      rcases List.mem_append.mp hb with hb | hb
      · have hfb : f.binder = some b := Option.mem_toList.mp hb
        exact Or.inl (hrel.2 (by simp [hfb]) (hfb.trans heq.symm)).symm
      · exact Or.inr ⟨b, hb, heq⟩
  sub := List.forall_mem_cons.mpr ⟨h.mem_issued f List.mem_cons_self, h.sub⟩
  nodup := by
    refine List.nodup_cons.mpr ⟨fun hmem => ?_, h.nodup⟩
    rw [(h.mem_acked f List.mem_cons_self).mp hmem] at hf
    cases hf

theorem Linked.ack {fs : List (Item α)} (h : Linked (fs ++ items) marked next issued acked) :
    Linked items (ack marked fs).2 next issued ((ack marked fs).1.reverse ++ acked) := by
  induction fs generalizing marked acked with
  | nil => exact h
  | cons f fs ih =>
      rw [Binder.ack]
      split
      · exact ih (h.sublist (List.sublist_cons_self f _))
      · rename_i hnot
        have hmark := ih (h.mark (Bool.not_eq_true _ ▸ hnot))
        simp only [List.reverse_cons, List.append_assoc, List.singleton_append]
        exact hmark

/-- The item `f` gets a binder, and there is a copy of it. -/
theorem Linked.copy {f : Item α} (h : Linked (f :: items) marked next issued acked) (hf : f.isAcked marked = false) :
    Linked (⟨f.body, some (f.binder.getD next)⟩ :: ⟨f.body, some (f.binder.getD next)⟩ :: items) marked
      (if f.binder.isSome then next else next + 1) issued acked := by
  obtain ⟨hrel, hpair⟩ := List.pairwise_cons.mp h.related
  have hle : next ≤ if f.binder.isSome then next else next + 1 := by
    split
    · exact Nat.le_refl _
    · exact Nat.le_succ _
  have hb : f.binder.getD next < if f.binder.isSome then next else next + 1 := by
    cases hbinder : f.binder with
    | none => exact Nat.lt_succ_self next
    | some b => exact h.lt f List.mem_cons_self b hbinder
  have hg : ∀ g ∈ items, Related (⟨f.body, some (f.binder.getD next)⟩ : Item α) g := by
    intro g hg
    have hfg := hrel g hg
    cases hbinder : f.binder with
    | none =>
        refine ⟨fun hbody => absurd hbinder (hfg.1 hbody).1, fun _ heq => ?_⟩
        exact absurd (h.lt g (List.mem_cons_of_mem f hg) next heq.symm) (Nat.lt_irrefl next)
    | some b =>
        rw [Related, hbinder] at hfg
        exact hfg
  have hself : Related (⟨f.body, some (f.binder.getD next)⟩ : Item α) ⟨f.body, some (f.binder.getD next)⟩ :=
    ⟨fun _ => ⟨by simp, rfl⟩, fun _ _ => rfl⟩
  have hacked : f.body ∈ acked ↔ (⟨f.body, some (f.binder.getD next)⟩ : Item α).isAcked marked = true := by
    rw [h.mem_acked f List.mem_cons_self, hf, isAcked_iff]
    refine ⟨fun hfalse => (nomatch hfalse), fun ⟨b, hmem, heq⟩ => ?_⟩
    rw [Option.some.injEq] at heq
    cases hbinder : f.binder with
    | none =>
        rw [hbinder, Option.getD_none] at heq
        exact absurd (h.marked_lt b hmem) (heq ▸ Nat.lt_irrefl next)
    | some b' =>
        rw [hbinder, Option.getD_some] at heq
        rw [isAcked_iff.mpr ⟨b, hmem, heq ▸ hbinder⟩] at hf
        cases hf
  refine ⟨List.pairwise_cons.mpr ⟨List.forall_mem_cons.mpr ⟨hself, hg⟩, List.pairwise_cons.mpr ⟨hg, hpair⟩⟩, ?_,
    fun b hmem => Nat.lt_of_lt_of_le (h.marked_lt b hmem) hle, ?_, ?_, h.sub, h.nodup⟩
  · have hnew : ∀ b ∈ some (f.binder.getD next), b < if f.binder.isSome then next else next + 1 := by
      rintro b ⟨⟩
      exact hb
    refine List.forall_mem_cons.mpr ⟨hnew, List.forall_mem_cons.mpr ⟨hnew, fun g hmem b hgb => ?_⟩⟩
    exact Nat.lt_of_lt_of_le (h.lt g (List.mem_cons_of_mem f hmem) b hgb) hle
  · have hissued := h.mem_issued f List.mem_cons_self
    exact List.forall_mem_cons.mpr ⟨hissued, List.forall_mem_cons.mpr ⟨hissued, fun g hmem => h.mem_issued g (List.mem_cons_of_mem f hmem)⟩⟩
  · exact List.forall_mem_cons.mpr ⟨hacked, List.forall_mem_cons.mpr ⟨hacked, fun g hmem => h.mem_acked g (List.mem_cons_of_mem f hmem)⟩⟩

theorem Linked.reclaim {fs : List (Item α)} (h : Linked (fs ++ items) marked next issued acked) :
    Linked ((reclaim marked fs next).1 ++ ((reclaim marked fs next).2.1 ++ items)) marked (reclaim marked fs next).2.2 issued acked := by
  induction fs generalizing items next with
  | nil => exact h
  | cons f fs ih =>
      rw [Binder.reclaim]
      split
      · have hf : (fs ++ (f :: items)).Perm (f :: fs ++ items) := List.perm_middle
        refine (ih (h.perm hf)).perm ?_
        exact ((List.Perm.append_left _ List.perm_middle).trans List.perm_middle).symm
      · rename_i hnot
        have hcopy := h.copy (Bool.not_eq_true _ ▸ hnot)
        simp only
        generalize (⟨f.body, some (f.binder.getD next)⟩ : Item α) = g at hcopy ⊢
        have hmove : ∀ l : List (Item α), (l ++ (g :: g :: items)).Perm (g :: g :: (l ++ items)) :=
          fun l => List.perm_middle.trans (List.perm_middle.cons g)
        refine (ih (hcopy.perm (hmove fs))).perm ?_
        exact ((List.Perm.append_left _ (hmove _)).trans List.perm_middle).symm

theorem take_sublist (marked : List Nat) (k : Nat) (fs : List (Item α)) :
    ((take marked k fs).1 ++ (take marked k fs).2).Sublist fs := by
  induction fs generalizing k with
  | nil => exact List.Sublist.refl _
  | cons f fs ih =>
      rw [take.eq_def]
      simp only
      split
      · exact (ih k).cons f
      · cases k with
        | zero => exact List.Sublist.refl _
        | succ k => exact (ih k).cons_cons f

end Zngtcp2.Lib.Binder
