import Zngtcp2.BufAlloc.Alloc

namespace Zngtcp2.BufAlloc

/-- The sequence never holds so many references at once that their count wraps around. -/
def FewRefs (ops : List RefOp) : Prop :=
  ∀ p, p <+: ops → left 1 p < 2 ^ 64

/-- The buffer has an owner. -/
structure Owned (out : PtrBuf) : Prop where
  owner : out.owner ≠ 0
  retain : out.retain = true
  release : out.release = true

section

variable {out : PtrBuf} {o o' : Owner} {k : Nat} {ops : List RefOp}

theorem refStep_retain (hout : Owned out) : refStep out o .retain = o.retain := by
  have hcond : ¬ (out.owner = 0 ∨ out.retain = false ∨ out.release = false) := by
    simp [hout.owner, hout.retain, hout.release]
  rw [refStep, retainOwner, if_neg hcond]
  cases o.retain <;> rfl

theorem refStep_release (hout : Owned out) : refStep out o .release = o.release := by
  rw [refStep, releaseOwner, if_pos ⟨hout.owner, hout.release⟩]
  cases o.release <;> rfl

/-- The block counts `k` references, and is live as long as there is one. -/
structure Holds (o : Owner) (k : Nat) : Prop where
  refcount : o.refcount = k
  freed : o.freed = true ↔ k = 0

theorem Holds.retain (h : Holds o k) (hk : 0 < k) (hlt : k + 1 < 2 ^ 64) : ∃ o', o.retain = some o' ∧ Holds o' (k + 1) := by
  have hlive : ¬ o.freed = true := fun hfreed => Nat.ne_of_gt hk (h.freed.mp hfreed)
  refine ⟨_, if_neg hlive, ?_, ?_⟩
  · dsimp only
    rw [h.refcount, Nat.mod_eq_of_lt hlt]
  · simp [hlive]

theorem Holds.release (h : Holds o k) (hk : 0 < k) : ∃ o', o.release = some o' ∧ Holds o' (k - 1) := by
  have hlive : ¬ o.freed = true := fun hfreed => Nat.ne_of_gt hk (h.freed.mp hfreed)
  have hcount := h.refcount
  rw [Owner.release, if_neg (not_or.mpr ⟨hlive, by omega⟩)]
  by_cases hlast : o.refcount - 1 = 0
  · rw [if_neg (not_not.mpr hlast)]
    exact ⟨_, rfl, by dsimp only; omega, iff_of_true rfl (by omega)⟩
  · rw [if_pos hlast]
    exact ⟨_, rfl, by dsimp only; omega, iff_of_false hlive (by omega)⟩

/-- Every sequence of retains and releases keeps the count. -/
theorem refRun_holds (hout : Owned out) (hops : Held k ops) (hfew : ∀ p, p <+: ops → left k p < 2 ^ 64)
    (h : Holds o k) : ∃ o', refRun out o ops = some o' ∧ Holds o' (left k ops) := by
  induction ops generalizing o k with
  | nil => exact ⟨o, rfl, h⟩
  | cons op ops ih =>
      have hnext : ∀ {k'}, (∀ p, left k (op :: p) = left k' p) → ∀ p, p <+: ops → left k' p < 2 ^ 64 := by
        intro k' hleft p hp
        rw [← hleft]
        exact hfew (op :: p) (List.prefix_cons_inj op |>.mpr hp)
      cases op with
      | retain =>
          have hone : k + 1 < 2 ^ 64 := hfew [.retain] (List.prefix_cons_inj _ |>.mpr List.nil_prefix)
          obtain ⟨o₁, hstep, h₁⟩ := h.retain hops.1 hone
          obtain ⟨o', hrun, h'⟩ := ih hops.2 (hnext fun _ => rfl) h₁
          refine ⟨o', ?_, h'⟩
          rw [refRun, List.foldlM_cons, refStep_retain hout, hstep]
          exact hrun
      | release =>
          obtain ⟨o₁, hstep, h₁⟩ := h.release hops.1
          obtain ⟨o', hrun, h'⟩ := ih hops.2 (hnext fun _ => rfl) h₁
          refine ⟨o', ?_, h'⟩
          rw [refRun, List.foldlM_cons, refStep_release hout, hstep]
          exact hrun

theorem Held.front {p : List RefOp} (h : Held k ops) (hp : p <+: ops) : Held k p := by
  induction p generalizing k ops with
  | nil => trivial
  | cons op p ih =>
      obtain ⟨rest, rfl⟩ := hp
      cases op with
      | retain => exact ⟨h.1, ih h.2 (List.prefix_append p rest)⟩
      | release => exact ⟨h.1, ih h.2 (List.prefix_append p rest)⟩

theorem refcount_lt (hout : Owned out) (ho : o.refcount < 2 ^ 64) (hrun : refRun out o ops = some o') :
    o'.refcount < 2 ^ 64 := by
  induction ops generalizing o with
  | nil =>
      cases hrun
      exact ho
  | cons op ops ih =>
      rw [refRun, List.foldlM_cons] at hrun
      obtain ⟨o₁, hstep, hrest⟩ := Option.bind_eq_some_iff.mp hrun
      refine ih ?_ hrest
      cases op with
      | retain =>
          rw [refStep_retain hout, Owner.retain] at hstep
          split at hstep
          · cases hstep
          · cases hstep
            exact Nat.mod_lt _ (by decide)
      | release =>
          rw [refStep_release hout, Owner.release] at hstep
          split at hstep
          · cases hstep
          · split at hstep
            · cases hstep
              dsimp only
              omega
            · cases hstep
              dsimp only
              omega

/-- The block is freed exactly with the last reference, unless the count wraps around. -/
theorem counts_iff (hout : Owned out) (hops : Held 1 ops) (addr len : Nat) :
    Counts out ⟨addr, len, 1, false⟩ ops ↔ FewRefs ops := by
  constructor
  · intro h p hp
    obtain ⟨o', hrun, hcount, -⟩ := h p hp
    rw [← hcount]
    exact refcount_lt hout (by decide : 1 < 2 ^ 64) hrun
  · intro h p hp
    have hnew : Holds ⟨addr, len, 1, false⟩ 1 := ⟨rfl, by simp⟩
    obtain ⟨o', hrun, h'⟩ := refRun_holds hout (hops.front hp) (fun q hq => h q (hq.trans hp)) hnew
    exact ⟨o', hrun, h'.refcount, h'.freed⟩

end

/-- The allocator keeps its promise exactly where the headroom is a multiple of the alignment, or no memory is given out
anyway: only the beginning of the range is aligned, and the headroom behind it moves the position away. -/
theorem bufAlloc_honours (malloc : Malloc) {info : AllocInfo} (hinfo : validateInfo info = .ok ()) {ops : List RefOp}
    (hops : Held 1 ops) :
    Honours malloc info ops ↔
      info.Overflows ∨ malloc.alloc info.blockLen = none ∨ info.align ∣ info.headroom ∧ FewRefs ops := by
  rw [Honours, bufAlloc_eq malloc hinfo]
  by_cases hover : uint64Max < info.blockLen
  · rw [if_pos hover]
    simp [AllocInfo.Overflows, hover]
  rw [if_neg hover]
  cases halloc : malloc.alloc info.blockLen with
  | none => simp
  | some addr =>
      obtain ⟨hpos, hin⟩ := malloc.inside halloc
      by_cases hdvd : info.align ∣ info.headroom
      · have hout : Owned (info.outAt addr) := ⟨Nat.ne_of_gt hpos, rfl, rfl⟩
        have hcounts := counts_iff hout hops addr info.blockLen
        have hplaced := outAt_placed hinfo hin hdvd
        simp [hdvd, hplaced, hcounts, AllocInfo.Overflows, hover]
      · simp [hdvd, AllocInfo.Overflows, hover]

theorem page_inside {len addr : Nat} (h : (if len ≤ 4096 then some 4096 else none) = some addr) :
    0 < addr ∧ addr + len ≤ uint64Max := by
  split at h
  · cases h
    simp only [uint64Max]
    omega
  · cases h

/-- Memory with one block, on a page of its own. -/
def page : Malloc where
  alloc := fun len => if len ≤ 4096 then some 4096 else none
  inside := page_inside

/-- A datagram with one byte of headroom, to be aligned to sixteen bytes. -/
def unaligned : AllocInfo where
  role := roleTxDatagram
  origin := 0
  size := 16
  headroom := 1
  tailroom := 0
  align := 16

theorem bufAlloc_unaligned : ¬ Honours page unaligned [] := by
  intro h
  have hrv : (bufAlloc page unaligned).rv = .bufContract := by decide
  have hover : ¬ uint64Max < unaligned.blockLen := by decide
  obtain hok | hnomem | ⟨-, hlong⟩ := h.1
  · rw [hrv] at hok
    cases hok
  · rw [hrv] at hnomem
    cases hnomem
  · exact hover hlong

/-- The same with two blocks of headroom. -/
def aligned : AllocInfo where
  role := roleTxDatagram
  origin := 0
  size := 16
  headroom := 32
  tailroom := 0
  align := 16

theorem bufAlloc_honours_aligned :
    Honours page aligned [.retain, .release, .release] ↔
      aligned.Overflows ∨ page.alloc aligned.blockLen = none ∨
        aligned.align ∣ aligned.headroom ∧ FewRefs [.retain, .release, .release] :=
  bufAlloc_honours page rfl (by simp [Held])

end Zngtcp2.BufAlloc
