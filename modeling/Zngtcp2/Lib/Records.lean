import Zngtcp2.Lib.Run

namespace Zngtcp2.Lib.Records

open Run (Ends)

variable {α σ τ ε : Type}

/-- Every record takes something off the input. -/
def Consumes (read : σ → List α → Except ε (σ × List α)) : Prop :=
  ∀ s xs s' ys, read s xs = .ok (s', ys) → ys.length < xs.length

/-- Reads records as long as at least `k` elements are left. -/
def readAll (read : σ → List α → Except ε (σ × List α)) (hread : Consumes read) (k : Nat) (s : σ) (xs : List α) :
    Except ε (σ × List α) :=
  if k ≤ xs.length then
    match _ : read s xs with
    | .ok (s', ys) => readAll read hread k s' ys
    | .error e => .error e
  else .ok (s, xs)
termination_by xs.length
decreasing_by exact hread _ _ _ _ (by assumption)

/-- `n` records are read, each while at least `k` elements are left. -/
inductive Reads (read : σ → List α → Except ε (σ × List α)) (k : Nat) : Nat → σ → List α → σ → List α → Prop
  | stop (s : σ) (xs : List α) : Reads read k 0 s xs s xs
  | record {n : Nat} {s s₁ s' : σ} {xs ys zs : List α} (hk : k ≤ xs.length) (h : read s xs = .ok (s₁, ys))
      (hrest : Reads read k n s₁ ys s' zs) : Reads read k (n + 1) s xs s' zs

/-- Writes the records one after the other. -/
def writeAll (write : τ → Except ε (List α)) : List τ → Except ε (List α)
  | [] => .ok []
  | t :: ts => do
      let xs ← write t
      let ys ← writeAll write ts
      .ok (xs ++ ys)

def lenAll (len : τ → Except ε Nat) : List τ → Except ε Nat
  | [] => .ok 0
  | t :: ts => do
      let m ← len t
      let n ← lenAll len ts
      .ok (m + n)

section Reading

variable {read : σ → List α → Except ε (σ × List α)} {hread : Consumes read} {k : Nat}

theorem readAll_stop {s : σ} {xs : List α} (h : xs.length < k) : readAll read hread k s xs = .ok (s, xs) := by
  rw [readAll, if_neg (Nat.not_le.mpr h)]

theorem readAll_step {s s' : σ} {xs ys : List α} (hk : k ≤ xs.length) (h : read s xs = .ok (s', ys)) :
    readAll read hread k s xs = readAll read hread k s' ys := by
  rw [readAll, if_pos hk]
  split
  · rename_i s₁ zs h₁
    rw [h] at h₁
    cases h₁
    rfl
  · rename_i e h₁
    rw [h] at h₁
    cases h₁

theorem readAll_error {s : σ} {xs : List α} {e : ε} (hk : k ≤ xs.length) (h : read s xs = .error e) :
    readAll read hread k s xs = .error e := by
  rw [readAll, if_pos hk]
  split
  · rename_i s₁ zs h₁
    rw [h] at h₁
    cases h₁
  · rename_i e₁ h₁
    rw [h] at h₁
    cases h₁
    rfl

/-- What every record keeps holds at the end; the records stop when fewer than `k` elements are left. -/
theorem readAll_ends {tolerated : ε → Prop} (Inv : σ → List α → Prop)
    (hstep : ∀ s xs, Inv s xs → k ≤ xs.length → Ends tolerated (fun r => Inv r.1 r.2) (read s xs))
    {s : σ} {xs : List α} (hs : Inv s xs) :
    Ends tolerated (fun r => Inv r.1 r.2 ∧ r.2.length < k) (readAll read hread k s xs) := by
  induction hn : xs.length using Nat.strong_induction_on generalizing s xs with
  | _ n ih =>
      by_cases hk : k ≤ xs.length
      · have hends := hstep s xs hs hk
        cases hr : read s xs with
        | ok r =>
            rw [readAll_step hk hr]
            rw [hr] at hends
            have hlt := hread s xs r.1 r.2 hr
            rw [hn] at hlt
            exact ih r.2.length hlt hends rfl
        | error e =>
            rw [readAll_error hk hr]
            rwa [hr] at hends
      · rw [readAll_stop (Nat.not_le.mp hk)]
        exact ⟨hs, Nat.not_le.mp hk⟩

theorem readAll_reads {s s' : σ} {xs ys : List α} (h : readAll read hread k s xs = .ok (s', ys)) :
    ∃ n, Reads read k n s xs s' ys := by
  induction hn : xs.length using Nat.strong_induction_on generalizing s xs with
  | _ m ih =>
      by_cases hk : k ≤ xs.length
      · cases hr : read s xs with
        | ok r =>
            rw [readAll_step hk hr] at h
            have hlt := hread s xs r.1 r.2 hr
            rw [hn] at hlt
            obtain ⟨n, hreads⟩ := ih r.2.length hlt h rfl
            exact ⟨n + 1, .record hk hr hreads⟩
        | error e =>
            rw [readAll_error hk hr] at h
            cases h
      · rw [readAll_stop (Nat.not_le.mp hk)] at h
        cases h
        exact ⟨0, .stop _ _⟩

/-- Records that each take at least `m` elements off the front of the input leave a rest that bounds their number. -/
theorem Reads.rest {m n : Nat} {s s' : σ} {xs ys : List α}
    (hm : ∀ s xs s' ys, read s xs = .ok (s', ys) → ys <:+ xs ∧ m + ys.length ≤ xs.length)
    (h : Reads read k n s xs s' ys) : ys <:+ xs ∧ m * n + ys.length ≤ xs.length := by
  induction h with
  | stop s xs => exact ⟨List.suffix_rfl, by omega⟩
  | record _ hr _ ih =>
      obtain ⟨hsuffix, hlen⟩ := hm _ _ _ _ hr
      refine ⟨ih.1.trans hsuffix, ?_⟩
      rw [Nat.mul_succ]
      omega

variable (hread) in
/-- Records that are written one after the other and of which each is read back are read back together,
and their length is known before they are written. `Ready s t` says that the state does not have the record
`t` yet; a record that writes nothing has nothing to change in such a state. -/
theorem readAll_writeAll {write : τ → Except ε (List α)} {len : τ → Except ε Nat} (take : σ → τ → σ)
    (Ready : σ → τ → Prop)
    (hrecord : ∀ t s, Ready s t → ∃ xs, write t = .ok xs ∧ len t = .ok xs.length ∧
      (xs = [] ∧ take s t = s ∨ k ≤ xs.length ∧ ∀ rest, read s (xs ++ rest) = .ok (take s t, rest)))
    (hkeep : ∀ s t t', t ≠ t' → Ready s t' → Ready (take s t) t')
    {ts : List τ} (hts : ts.Nodup) {s : σ} (hs : ∀ t ∈ ts, Ready s t) :
    ∃ xs, writeAll write ts = .ok xs ∧ lenAll len ts = .ok xs.length ∧
      ∀ rest, readAll read hread k s (xs ++ rest) = readAll read hread k (ts.foldl take s) rest := by
  induction ts generalizing s with
  | nil => exact ⟨[], rfl, rfl, fun rest => rfl⟩
  | cons t ts ih =>
      obtain ⟨ht, hts⟩ := List.nodup_cons.mp hts
      obtain ⟨xs, hwrite, hlen, hread'⟩ := hrecord t s (hs t List.mem_cons_self)
      have hready : ∀ t' ∈ ts, Ready (take s t) t' := by
        intro t' ht'
        apply hkeep
        · intro heq
          exact ht (heq ▸ ht')
        · exact hs t' (List.mem_cons_of_mem t ht')
      obtain ⟨ys, hwrites, hlens, hreads⟩ := ih hts hready
      refine ⟨xs ++ ys, ?_, ?_, fun rest => ?_⟩
      · simp only [writeAll, hwrite, hwrites, bind, Except.bind]
      · simp only [lenAll, hlen, hlens, bind, Except.bind, List.length_append]
      · rw [List.append_assoc, List.foldl_cons, ← hreads rest]
        obtain ⟨rfl, htake⟩ | ⟨hk, hxs⟩ := hread'
        · rw [List.nil_append, htake]
        · apply readAll_step
          · rw [List.length_append]
            omega
          · exact hxs (ys ++ rest)

end Reading

end Zngtcp2.Lib.Records
