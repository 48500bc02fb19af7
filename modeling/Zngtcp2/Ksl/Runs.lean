import Mathlib.Order.Nat
import Zngtcp2.Ksl.Operations
import Zngtcp2.Lib.Run

namespace Zngtcp2.SkipList

open Lib.Run

variable {K V : Type}

/-- The operations that change a list; `alloc` says which allocations of an insertion succeed. -/
inductive Op (K V : Type)
  | insert (alloc : List Bool) (key : K) (data : V)
  | remove (key : K)
  | removeHint (hint : It) (key : K)
  | updateKey (oldKey newKey : K)
  | clear

variable [LinearOrder K]

/-- What an operation does to a sorted list of elements: the elements after it, the code, and the
elements from the iterator on that it returns. -/
def answer (es : List (K × V)) : Op K V → List (K × V) × Rv × List (K × V)
  | .insert _ key data =>
      if key ∈ es.map Prod.fst then (es, .invalidArgument, [])
      else (searchFront key es ++ (key, data) :: searchRest key es, .ok, (key, data) :: searchRest key es)
  | .remove key | .removeHint _ key =>
      if key ∈ es.map Prod.fst then (es.filter (·.1 ≠ key), .ok, es.filter (key < ·.1)) else (es, .invalidArgument, [])
  | .updateKey oldKey newKey => (es.map (rekey oldKey newKey), .ok, [])
  | .clear => ([], .ok, [])

namespace Ksl

def step (s : Ksl K V) : Op K V → Except Fault (Ksl K V × Rv × Option It)
  | .insert alloc key data => s.insert alloc key data
  | .remove key => s.remove key
  | .removeHint hint key => s.removeHint hint key
  | .updateKey oldKey newKey => do
      let s ← s.updateKey oldKey newKey
      .ok (s, .ok, none)
  | .clear => .ok (s.clear, .ok, none)

def next (s : Ksl K V) (op : Op K V) : Except Fault (Ksl K V) := do
  let (s, _, _) ← s.step op
  .ok s

/-- What the caller of an operation has to ensure: the hint is the node of the key, and a new key has
its place between the neighbours of the old one. -/
def Requires (s : Ksl K V) : Op K V → Prop
  | .removeHint hint key => (s.get hint).map Prod.fst = some key
  | .updateKey oldKey newKey => oldKey ∈ s.entries.map Prod.fst ∧ Between oldKey newKey s.entries
  | _ => True

/-- The allocations succeed. -/
def Allocates : Op K V → Prop
  | .insert alloc _ _ => false ∉ alloc
  | _ => True

/-- No key of an inner block lies from the new key on and in front of the old one. -/
def Clears (s : Ksl K V) : Op K V → Prop
  | .updateKey oldKey newKey => ∀ k ∈ s.separatorList, ¬(newKey ≤ k ∧ k < oldKey)
  | _ => True

/-- The list looks like a sorted list of elements. -/
structure Agrees (s : Ksl K V) (es : List (K × V)) : Prop where
  iterate : s.iterate s.begin = some es
  sorted : es.Pairwise fun a b => a.1 < b.1
  len : s.n = es.length
  lowerBound : ∀ key, ∃ it, s.lowerBound key = .ok it ∧ s.iterate it = some (searchRest key es)
  ok : s.Ok

variable {s : Ksl K V}

theorem Ok.agrees (h : s.Ok) : s.Agrees s.entries :=
  ⟨h.iterate_begin, h.sorted, h.n, h.lowerBound, h⟩

theorem Agrees.entries_eq {es : List (K × V)} (h : s.Agrees es) : s.entries = es := by
  have := h.ok.iterate_begin.symm.trans h.iterate
  exact Option.some.inj this

/-- How a step looks from outside. -/
structure Answers (es : List (K × V)) (op : Op K V) (s : Ksl K V) (rv : Rv) (it : Option It) : Prop where
  agrees : s.Agrees (answer es op).1
  code : rv = (answer es op).2.1
  iterate : rv = .ok → s.iterate it = some (answer es op).2.2

end Ksl

theorem sorted_cut {front rest : List (K × V)} {key : K} {data : V}
    (h : (front ++ (key, data) :: rest).Pairwise fun a b => a.1 < b.1) : (∀ e ∈ front, e.1 < key) ∧ ∀ e ∈ rest, key < e.1 := by
  obtain ⟨-, hrest, hfront⟩ := List.pairwise_append.mp h
  exact ⟨fun e he => hfront e he (key, data) List.mem_cons_self, (List.pairwise_cons.mp hrest).1⟩

theorem filter_cut {front rest : List (K × V)} {key : K} {data : V} (hfront : ∀ e ∈ front, e.1 < key) (hrest : ∀ e ∈ rest, key < e.1) :
    (front ++ (key, data) :: rest).filter (·.1 ≠ key) = front ++ rest ∧ (front ++ (key, data) :: rest).filter (key < ·.1) = rest := by
  constructor
  · rw [List.filter_append, List.filter_cons_of_neg (by simp), List.filter_eq_self.mpr, List.filter_eq_self.mpr]
    · exact fun e he => decide_eq_true (ne_of_gt (hrest e he))
    · exact fun e he => decide_eq_true (ne_of_lt (hfront e he))
  · rw [List.filter_append, List.filter_cons_of_neg (by simp), List.filter_eq_self.mpr fun e he => decide_eq_true (hrest e he)]
    rw [List.filter_eq_nil_iff.mpr fun e he h => lt_asymm (hfront e he) (of_decide_eq_true h), List.nil_append]

namespace Ksl

variable {s s' : Ksl K V} {rv : Rv} {it : Option It}

theorem Removed.answers {key : K} {op : Op K V} (hop : op = .remove key ∨ ∃ hint, op = .removeHint hint key) (hs : s.Ok) (h : s'.Ok)
    (hr : Removed key s.entries s' rv it) : Answers s.entries op s' rv it := by
  have hans : answer s.entries op = if key ∈ s.entries.map Prod.fst then
      (s.entries.filter (·.1 ≠ key), .ok, s.entries.filter (key < ·.1)) else (s.entries, .invalidArgument, []) := by
    rcases hop with rfl | ⟨hint, rfl⟩ <;> rfl
  cases hr with
  | @removed front rest data it split eq iterate =>
      have hsorted := hs.sorted
      rw [split] at hsorted
      obtain ⟨hlt, hgt⟩ := sorted_cut hsorted
      obtain ⟨hne, hrest⟩ := @filter_cut K V _ front rest key data hlt hgt
      have hmem : key ∈ s.entries.map Prod.fst := by
        rw [split]
        simp
      rw [if_pos hmem, split, hne, hrest] at hans
      refine ⟨?_, by rw [split, hans], fun _ => by rw [split, hans, iterate]⟩
      rw [split, hans, ← eq]
      exact h.agrees
  | absent not eq =>
      rw [if_neg not] at hans
      refine ⟨?_, by rw [hans], fun h => nomatch h⟩
      rw [hans, ← eq]
      exact h.agrees

theorem Inserted.answers {key : K} {data : V} {alloc : List Bool} (halloc : false ∉ alloc) (h : s'.Ok)
    (hi : Inserted key data alloc s.entries s' rv it) : Answers s.entries (.insert alloc key data) s' rv it := by
  cases hi with
  | @inserted front rest it split lt gt eq iterate =>
      obtain ⟨hfront, hrest⟩ := search_eq lt fun e he => le_of_lt (gt e he)
      have hnot : key ∉ s.entries.map Prod.fst := by
        rw [split, List.map_append, List.mem_append]
        rintro (hmem | hmem)
        · obtain ⟨e, he, heq⟩ := List.mem_map.mp hmem
          exact absurd heq (ne_of_lt (lt e he))
        · obtain ⟨e, he, heq⟩ := List.mem_map.mp hmem
          exact absurd heq (ne_of_gt (gt e he))
      have hans : answer s.entries (.insert alloc key data) = (front ++ (key, data) :: rest, .ok, (key, data) :: rest) := by
        rw [answer, if_neg hnot, split, hfront, hrest]
      rw [← eq] at hans
      exact ⟨hans ▸ h.agrees, by rw [hans], fun _ => by rw [hans, iterate]⟩
  | present mem eq iterate =>
      have hans : answer s.entries (.insert alloc key data) = (s.entries, .invalidArgument, []) := if_pos mem
      refine ⟨?_, by rw [hans], fun hok => (nomatch hok)⟩
      rw [hans, ← eq]
      exact h.agrees
  | nomem failed eq => exact absurd failed halloc

/-- Every step is the one of a sorted list. -/
theorem Ok.step (h : s.Ok) {op : Op K V} (hreq : s.Requires op) (halloc : Allocates op) (hsep : s.Clears op) :
    ∃ s' rv it, s.step op = .ok (s', rv, it) ∧ Answers s.entries op s' rv it := by
  cases op with
  | insert alloc key data =>
      have hsafe : ¬(s.full ∧ SecondFails alloc) := fun hbad => halloc (List.mem_of_mem_tail (List.mem_of_head? hbad.2.2))
      obtain ⟨s', rv, it, heq, hok, hi⟩ := h.insert alloc key data hsafe
      exact ⟨s', rv, it, heq, hi.answers halloc hok⟩
  | remove key =>
      obtain ⟨s', rv, it, heq, hok, hr⟩ := h.remove key
      exact ⟨s', rv, it, heq, hr.answers (Or.inl rfl) h hok⟩
  | removeHint hint key =>
      obtain ⟨⟨k, data⟩, hget, rfl⟩ := Option.map_eq_some_iff.mp hreq
      obtain ⟨s', rv, it, heq, hok, hr⟩ := h.removeHint hget
      exact ⟨s', rv, it, heq, hr.answers (Or.inr ⟨hint, rfl⟩) h hok⟩
  | updateKey oldKey newKey =>
      have hsep' : ∀ k ∈ s.separatorList, k < oldKey → k < newKey := fun k hk hlt => not_le.mp fun hle => hsep k hk ⟨hle, hlt⟩
      obtain ⟨s', heq, hok, hes⟩ := h.updateKey hreq.1 hreq.2 hsep'
      refine ⟨s', .ok, none, by simp only [Ksl.step, heq, bind, Except.bind], ?_, rfl, fun _ => ?_⟩
      · rw [answer, ← hes]
        exact hok.agrees
      · rw [Ksl.iterate, collect, answer]
  | clear =>
      have hok : s.clear.Ok := ok_of_empty rfl rfl rfl rfl rfl
      refine ⟨s.clear, .ok, none, rfl, ?_, rfl, fun _ => ?_⟩
      · exact hok.agrees
      · rw [Ksl.iterate, collect, answer]

/-- The elements of a sorted list after operations. -/
def after (es : List (K × V)) (ops : List (Op K V)) : List (K × V) :=
  ops.foldl (fun es op => (answer es op).1) es

/-- The caller keeps to what the operations require, and the allocations succeed. -/
def Calls (s : Ksl K V) (op : Op K V) : Prop :=
  s.Requires op ∧ Allocates op

theorem Agrees.run {es : List (K × V)} (h : s.Agrees es) {ops : List (Op K V)} (hcalls : Guarded next Calls s ops)
    (hsep : Guarded next Clears s ops) : ∃ s', run next s ops = .ok s' ∧ s'.Agrees (after es ops) := by
  induction ops generalizing s es with
  | nil => exact ⟨s, rfl, h⟩
  | cons op ops ih =>
      obtain ⟨s₁, rv, it, hstep, hans⟩ := h.ok.step hcalls.1.1 hcalls.1.2 hsep.1
      have hnext : s.next op = .ok s₁ := by
        simp only [next, hstep, bind, Except.bind]
      rw [h.entries_eq] at hans
      obtain ⟨s₂, hrun, hagrees⟩ := ih hans.agrees (hcalls.2 s₁ hnext) (hsep.2 s₁ hnext)
      exact ⟨s₂, by rw [run_cons_ok hnext, hrun], hagrees⟩

section

variable (s : Ksl K V) (op : Op K V)

instance decidableRequires : Decidable (s.Requires op) :=
  match op with
  | .insert _ _ _ | .remove _ | .clear => .isTrue trivial
  | .removeHint hint key => inferInstanceAs (Decidable ((s.get hint).map Prod.fst = some key))
  | .updateKey oldKey newKey =>
      have : Decidable (Between oldKey newKey s.entries) :=
        inferInstanceAs (Decidable (∀ e ∈ s.entries, (e.1 < oldKey → e.1 < newKey) ∧ (oldKey < e.1 → newKey < e.1)))
      inferInstanceAs (Decidable (oldKey ∈ s.entries.map Prod.fst ∧ Between oldKey newKey s.entries))

instance decidableAllocates : Decidable (Allocates op) :=
  match op with
  | .insert alloc _ _ => inferInstanceAs (Decidable (false ∉ alloc))
  | .remove _ | .removeHint _ _ | .updateKey _ _ | .clear => .isTrue trivial

instance decidableClears : Decidable (s.Clears op) :=
  match op with
  | .updateKey oldKey newKey => inferInstanceAs (Decidable (∀ k ∈ s.separatorList, ¬(newKey ≤ k ∧ k < oldKey)))
  | .insert _ _ _ | .remove _ | .removeHint _ _ | .clear => .isTrue trivial

instance decidableCalls : Decidable (s.Calls op) :=
  inferInstanceAs (Decidable (s.Requires op ∧ Allocates op))

end

/-- Every run of the list is a run of a sorted list, as long as no key of an inner block is between a
new key and the old one that it replaces. -/
theorem run_sortedList {ops : List (Op K V)} (hcalls : Guarded next Calls init ops) (hsep : Guarded next Clears init ops) :
    ∃ s, run next init ops = .ok s ∧ s.Agrees (after [] ops) ∧
      ∀ op, s.Calls op → s.Clears op → ∃ s' rv it, s.step op = .ok (s', rv, it) ∧ Answers (after [] ops) op s' rv it := by
  have hinit : Agrees (init : Ksl K V) [] := (ok_of_empty (s := init) rfl rfl rfl rfl rfl).agrees
  obtain ⟨s, hrun, hagrees⟩ := hinit.run hcalls hsep
  refine ⟨s, hrun, hagrees, fun op hop hclears => ?_⟩
  obtain ⟨s', rv, it, hstep, hans⟩ := hagrees.ok.step hop.1 hop.2 hclears
  rw [hagrees.entries_eq] at hans
  exact ⟨s', rv, it, hstep, hans⟩

/-- Elements are inserted until the root is split, and the last one of the left leaf is removed, so
that its key only stays in the root. -/
def staleRun : List (Op Nat Unit) :=
  (List.range 33).map (fun i => .insert [] (10 * (i + 1)) ()) ++ [.insert [] 5 (), .insert [] 6 (), .remove 160]

theorem run_sortedList_stale :
    ∃ s, run next init (staleRun ++ [.updateKey 170 165]) = .ok s ∧ s.Agrees (after [] (staleRun ++ [.updateKey 170 165])) ∧
      ∀ op, s.Calls op → s.Clears op →
        ∃ s' rv it, s.step op = .ok (s', rv, it) ∧ Answers (after [] (staleRun ++ [.updateKey 170 165])) op s' rv it :=
  run_sortedList (by decide +kernel) (by decide +kernel)

/-- A key that gets smaller than the one that stayed in the root is not found any more. -/
theorem updateKey_hides_key :
    Guarded next Calls init (staleRun ++ [.updateKey 170 155]) ∧
      ∃ s ∈ (run next init (staleRun ++ [.updateKey 170 155])).toOption,
        (∃ es ∈ s.iterate s.begin, (155, ()) ∈ es) ∧
          ∃ r ∈ (s.step (.remove 155)).toOption, r.2.1 = .invalidArgument := by
  decide +kernel

/-- The elements from the lower bound of a key on. -/
def bound (s : Ksl K V) (key : K) : Except Fault (Option (List (K × V))) := do
  let it ← s.lowerBound key
  .ok (s.iterate it)

/-- An insertion keeps the memory of the list as it is if it fails. -/
def Keeps (s : Ksl K V) : Op K V → Prop
  | .insert alloc _ _ => ¬(s.full ∧ SecondFails alloc)
  | _ => True

instance decidableFull (s : Ksl K V) : Decidable s.full :=
  match hr : s.root with
  | none =>
      .isFalse fun ⟨_, _, h, _⟩ => by
        rw [hr] at h
        cases h
  | some ⟨h, t⟩ =>
      decidable_of_iff (t.n = maxNblk)
        ⟨fun hn => ⟨h, t, hr, hn⟩, fun ⟨_, _, h', hn⟩ => by
          rw [hr] at h'
          cases h'
          exact hn⟩

instance decidableKeeps (s : Ksl K V) (op : Op K V) : Decidable (s.Keeps op) :=
  match op with
  | .insert alloc _ _ =>
      have : Decidable (SecondFails alloc) :=
        inferInstanceAs (Decidable (alloc.head? = some true ∧ alloc.tail.head? = some false))
      inferInstanceAs (Decidable ¬(s.full ∧ SecondFails alloc))
  | .remove _ | .removeHint _ _ | .updateKey _ _ | .clear => .isTrue trivial

/-- Nothing that can be seen has changed, and the list can be used further. -/
structure Unchanged (s s' : Ksl K V) : Prop where
  iterate : s'.iterate s'.begin = s.iterate s.begin
  len : s'.n = s.n
  bound : ∀ key, s'.bound key = s.bound key
  ok : s'.Ok

theorem Ok.unchanged (h : s.Ok) (h' : s'.Ok) (heq : s'.entries = s.entries) : Unchanged s s' := by
  refine ⟨?_, ?_, fun key => ?_, h'⟩
  · rw [h.iterate_begin, h'.iterate_begin, heq]
  · rw [h.n, h'.n, heq]
  · obtain ⟨it, hit, hiter⟩ := h.lowerBound key
    obtain ⟨it', hit', hiter'⟩ := h'.lowerBound key
    simp only [Ksl.bound, hit, hit', bind, Except.bind, hiter, hiter', heq]

theorem Ok.next (h : s.Ok) {op : Op K V} (hreq : s.Requires op) (hsep : s.Clears op) (hkeeps : s.Keeps op) (hnext : s.next op = .ok s') :
    s'.Ok := by
  rw [Ksl.next] at hnext
  obtain ⟨⟨s₁, rv, it⟩, hstep, heq⟩ := bind_ok hnext
  cases heq
  cases op with
  | insert alloc key data =>
      obtain ⟨s₂, rv₂, it₂, hins, hok, -⟩ := h.insert alloc key data hkeeps
      have hstep : s.insert alloc key data = .ok (s', rv, it) := hstep
      rw [hins] at hstep
      cases hstep
      exact hok
  | _ =>
      obtain ⟨s₂, rv₂, it₂, hstep₂, hans⟩ := h.step hreq trivial hsep
      rw [hstep₂] at hstep
      cases hstep
      exact hans.agrees.ok

/-- An insertion that fails for want of memory leaves the list as it was, in every state that is
reached without such a failure of a new root, exactly if it is not one itself. -/
theorem insert_nomem_iff {ops : List (Op K V)} (hreq : Guarded next Requires init ops) (hsep : Guarded next Clears init ops)
    (hkeeps : Guarded next Keeps init ops) (hrun : run next init ops = .ok s) (alloc : List Bool) (key : K) (data : V) :
    (∀ s' it, s.insert alloc key data = .ok (s', .nomem, it) → Unchanged s s') ↔ ¬(s.full ∧ SecondFails alloc) := by
  have hok : s.Ok := by
    have hinit : Ok (init : Ksl K V) := ok_of_empty rfl rfl rfl rfl rfl
    refine run_preserves ?_ hinit ((hreq.and hsep).and hkeeps) hrun
    exact fun s op s' h hg hnext => h.next hg.1.1 hg.1.2 hg.2 hnext
  constructor
  · rintro hall ⟨hfull, hfails⟩
    obtain ⟨s', hins, hbad⟩ := insert_secondFails hok hfull hfails key data
    exact hbad (hall s' none hins).ok
  · intro hsafe s' it hins
    obtain ⟨s₁, rv, it₁, heq, hok', hi⟩ := hok.insert alloc key data hsafe
    rw [heq] at hins
    cases hins
    cases hi with
    | nomem failed eq => exact hok.unchanged hok' eq

/-- Elements are inserted until the root is full. -/
def fullRun : List (Op Nat Unit) :=
  (List.range 32).map fun i => .insert [] (10 * (i + 1)) ()

theorem insert_nomem_first_fails :
    ∃ s, run next init fullRun = .ok s ∧
      ((∀ s' it, s.insert [false] 5 () = .ok (s', .nomem, it) → Unchanged s s') ↔ ¬(s.full ∧ SecondFails [false])) := by
  cases hrun : run next init fullRun with
  | error e =>
      have hok : (run next init fullRun).isOk = true := by
        decide +kernel
      rw [hrun] at hok
      cases hok
  | ok s =>
      exact ⟨s, rfl, insert_nomem_iff (by decide +kernel) (by decide +kernel) (by decide +kernel) hrun [false] 5 ()⟩

/-- If the second block cannot be allocated, the elements of the right half are lost. -/
theorem insert_nomem_loses_half :
    ∃ s ∈ (run next init fullRun).toOption, ∃ es ∈ s.iterate s.begin, es.length = 32 ∧
      ∃ r ∈ (s.insert [true, false] 5 ()).toOption, r.2.1 = .nomem ∧ r.1.n = 32 ∧ r.1.iterate r.1.begin = none ∧
        r.1.entries.length = 16 := by
  decide +kernel

end Ksl

end Zngtcp2.SkipList
