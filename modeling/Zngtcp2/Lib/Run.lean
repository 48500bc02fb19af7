import Mathlib.Tactic.Ring
import Mathlib.Data.List.Basic

namespace Zngtcp2.Lib.Run

variable {σ ι ε : Type}

theorem bind_ok {α β : Type} {x : Except ε α} {f : α → Except ε β} {b : β} (h : (x >>= f) = .ok b) :
    ∃ a, x = .ok a ∧ f a = .ok b := by
  cases x with
  | ok a => exact ⟨a, rfl, h⟩
  | error e => cases h

theorem ok_of_toOption {α : Type} {x : Except ε α} {a : α} (h : a ∈ x.toOption) : x = .ok a := by
  cases x with
  | ok b =>
      cases h
      rfl
  | error e => cases h

/-- Applies a step that may fault to each input in turn, stopping at the first fault. -/
def run (step : σ → ι → Except ε σ) : σ → List ι → Except ε σ
  | s, [] => .ok s
  | s, i :: is =>
      match step s i with
      | .ok s' => run step s' is
      | .error e => .error e

/-- Every input of the run meets the guard in the state it is applied to. -/
def Guarded (step : σ → ι → Except ε σ) (guard : σ → ι → Prop) : σ → List ι → Prop
  | _, [] => True
  | s, i :: is => guard s i ∧ ∀ s', step s i = .ok s' → Guarded step guard s' is

instance decidableGuarded (step : σ → ι → Except ε σ) (guard : σ → ι → Prop) [∀ s i, Decidable (guard s i)] :
    (s : σ) → (is : List ι) → Decidable (Guarded step guard s is)
  | _, [] => .isTrue trivial
  | s, i :: is =>
      match hs : step s i with
      | .ok s' =>
          have := decidableGuarded step guard s' is
          decidable_of_iff (guard s i ∧ Guarded step guard s' is) (by simp [Guarded, hs])
      | .error _ => decidable_of_iff (guard s i) (by simp [Guarded, hs])

theorem run_cons_ok {step : σ → ι → Except ε σ} {s s' : σ} {i : ι} (h : step s i = .ok s') (is : List ι) :
    run step s (i :: is) = run step s' is := by
  simp only [run, h]

theorem run_append (step : σ → ι → Except ε σ) (s : σ) (is js : List ι) :
    run step s (is ++ js) =
      match run step s is with
      | .ok s' => run step s' js
      | .error e => .error e := by
  induction is generalizing s with
  | nil => rfl
  | cons i is ih =>
      simp only [List.cons_append, run]
      cases step s i with
      | ok s' => exact ih s'
      | error e => rfl

theorem guarded_of_forall {step : σ → ι → Except ε σ} {guard : σ → ι → Prop} {is : List ι}
    (h : ∀ i ∈ is, ∀ s, guard s i) (s : σ) : Guarded step guard s is := by
  induction is generalizing s with
  | nil => trivial
  | cons i is ih =>
      exact ⟨h i List.mem_cons_self s, fun s' _ => ih (fun j hj => h j (List.mem_cons_of_mem i hj)) s'⟩

theorem Guarded.append {step : σ → ι → Except ε σ} {guard : σ → ι → Prop} {s s' : σ} {is js : List ι}
    (his : Guarded step guard s is) (hrun : run step s is = .ok s') (hjs : Guarded step guard s' js) :
    Guarded step guard s (is ++ js) := by
  induction is generalizing s with
  | nil =>
      cases hrun
      exact hjs
  | cons i is ih =>
      refine ⟨his.1, fun s₁ h₁ => ih (his.2 s₁ h₁) ?_⟩
      rwa [run_cons_ok h₁] at hrun

theorem Guarded.of_append {step : σ → ι → Except ε σ} {guard : σ → ι → Prop} {s s' : σ} {is js : List ι}
    (h : Guarded step guard s (is ++ js)) (hrun : run step s is = .ok s') :
    Guarded step guard s is ∧ Guarded step guard s' js := by
  induction is generalizing s with
  | nil =>
      cases hrun
      exact ⟨trivial, h⟩
  | cons i is ih =>
      cases hs : step s i with
      | error e =>
          rw [run, hs] at hrun
          cases hrun
      | ok s₁ =>
          rw [run_cons_ok hs] at hrun
          refine ⟨⟨h.1, fun s₂ h₂ => ?_⟩, (ih (h.2 s₁ hs) hrun).2⟩
          rw [hs, Except.ok.injEq] at h₂
          subst h₂
          exact (ih (h.2 s₁ hs) hrun).1

theorem Guarded.and {step : σ → ι → Except ε σ} {guard guard' : σ → ι → Prop} {s : σ} {is : List ι}
    (h : Guarded step guard s is) (h' : Guarded step guard' s is) :
    Guarded step (fun s i => guard s i ∧ guard' s i) s is := by
  induction is generalizing s with
  | nil => trivial
  | cons i is ih => exact ⟨⟨h.1, h'.1⟩, fun s' hs => ih (h.2 s' hs) (h'.2 s' hs)⟩

/-- A property that every guarded step establishes again holds after every guarded run, and no
guarded run faults. -/
theorem run_invariant {step : σ → ι → Except ε σ} {guard : σ → ι → Prop} {Inv : σ → Prop}
    (hstep : ∀ s i, Inv s → guard s i → ∃ s', step s i = .ok s' ∧ Inv s')
    {s : σ} (hs : Inv s) {is : List ι} (hg : Guarded step guard s is) :
    ∃ s', run step s is = .ok s' ∧ Inv s' := by
  induction is generalizing s with
  | nil => exact ⟨s, rfl, hs⟩
  | cons i is ih =>
      obtain ⟨s₁, h₁, hi⟩ := hstep s i hs hg.1
      obtain ⟨s₂, h₂, hf⟩ := ih hi (hg.2 s₁ h₁)
      exact ⟨s₂, by rw [run_cons_ok h₁, h₂], hf⟩

/-- The same for runs that end without a fault. -/
theorem run_preserves {step : σ → ι → Except ε σ} {guard : σ → ι → Prop} {Inv : σ → Prop}
    (hstep : ∀ s i s', Inv s → guard s i → step s i = .ok s' → Inv s')
    {s s' : σ} (hs : Inv s) {is : List ι} (hg : Guarded step guard s is) (hrun : run step s is = .ok s') :
    Inv s' := by
  induction is generalizing s with
  | nil =>
      cases hrun
      exact hs
  | cons i is ih =>
      cases h : step s i with
      | error e =>
          rw [run, h] at hrun
          cases hrun
      | ok s₁ =>
          rw [run_cons_ok h] at hrun
          exact ih (hstep s i s₁ hs hg.1 h) (hg.2 s₁ h) hrun

/-- Two guards that agree wherever the first one has been met so far guard the same runs. -/
theorem Guarded.congr {step : σ → ι → Except ε σ} {allowed guard guard' : σ → ι → Prop} {Inv : σ → Prop} {is : List ι}
    (hiff : ∀ s i, Inv s → allowed s i → (guard s i ↔ guard' s i))
    (hstep : ∀ s i s', Inv s → allowed s i → guard s i → step s i = .ok s' → Inv s')
    {s : σ} (hs : Inv s) (hallowed : Guarded step allowed s is) : Guarded step guard s is ↔ Guarded step guard' s is := by
  induction is generalizing s with
  | nil => exact Iff.rfl
  | cons i is ih =>
      have hhead := hiff s i hs hallowed.1
      constructor
      · rintro ⟨hg, hrest⟩
        refine ⟨hhead.mp hg, fun s' hs' => ?_⟩
        exact (ih (hstep s i s' hs hallowed.1 hg hs') (hallowed.2 s' hs')).mp (hrest s' hs')
      · rintro ⟨hg, hrest⟩
        have hg := hhead.mpr hg
        refine ⟨hg, fun s' hs' => ?_⟩
        exact (ih (hstep s i s' hs hallowed.1 hg hs') (hallowed.2 s' hs')).mpr (hrest s' hs')

/-- If every allowed step keeps the property exactly when it meets the guard, so does every run. -/
theorem Guarded.run_iff {step : σ → ι → Except ε σ} {allowed guard : σ → ι → Prop} {Inv P : σ → Prop} {is : List ι}
    (hstep : ∀ s i s', Inv s → allowed s i → step s i = .ok s' → Inv s' ∧ (P s' ↔ P s ∧ guard s i))
    {s s' : σ} (hs : Inv s) (hallowed : Guarded step allowed s is) (hrun : run step s is = .ok s') :
    P s' ↔ P s ∧ Guarded step guard s is := by
  induction is generalizing s with
  | nil =>
      cases hrun
      exact ⟨fun h => ⟨h, trivial⟩, And.left⟩
  | cons i is ih =>
      cases h : step s i with
      | error e =>
          rw [run, h] at hrun
          cases hrun
      | ok s₁ =>
          obtain ⟨hs₁, hiff⟩ := hstep s i s₁ hs hallowed.1 h
          rw [run_cons_ok h] at hrun
          rw [ih hs₁ (hallowed.2 s₁ h) hrun, hiff, and_assoc]
          apply and_congr_right
          intro _
          apply and_congr_right
          intro _
          refine ⟨fun hg s₂ h₂ => ?_, fun hg => hg s₁ h⟩
          rw [h, Except.ok.injEq] at h₂
          exact h₂ ▸ hg

/-- The same for the steps of a list that is given. -/
theorem run_iff_guarded {step : σ → ι → Except ε σ} {guard : σ → ι → Prop} {Inv P : σ → Prop} {is : List ι}
    (hstep : ∀ i ∈ is, ∀ s s', Inv s → step s i = .ok s' → Inv s' ∧ (P s' ↔ P s ∧ guard s i))
    {s s' : σ} (hs : Inv s) (hrun : run step s is = .ok s') : P s' ↔ P s ∧ Guarded step guard s is := by
  have hmem : Guarded step (fun _ i => i ∈ is) s is := guarded_of_forall (fun _ hi _ => hi) s
  exact hmem.run_iff (fun s i s' hs hi => hstep i hi s s' hs) hs hrun

/-- Two runs, the second one of which leaves inputs out, stay related. -/
theorem run_filter {step : σ → ι → Except ε σ} {keep : ι → Bool} {R : σ → σ → Prop}
    (hkeep : ∀ s t i s', R s t → keep i = true → step s i = .ok s' → ∃ t', step t i = .ok t' ∧ R s' t')
    (homit : ∀ s t i s', R s t → keep i = false → step s i = .ok s' → R s' t)
    {s s' t : σ} (h : R s t) {is : List ι} (hrun : run step s is = .ok s') :
    ∃ t', run step t (is.filter keep) = .ok t' ∧ R s' t' := by
  induction is generalizing s t with
  | nil =>
      cases hrun
      exact ⟨t, rfl, h⟩
  | cons i is ih =>
      cases hs : step s i with
      | error e =>
          rw [run, hs] at hrun
          cases hrun
      | ok s₁ =>
          rw [run_cons_ok hs] at hrun
          cases hk : keep i with
          | true =>
              obtain ⟨t₁, ht, h₁⟩ := hkeep s t i s₁ h hk hs
              rw [List.filter_cons_of_pos hk, run_cons_ok ht]
              exact ih h₁ hrun
          | false =>
              rw [List.filter_cons_of_neg (by rw [hk]; exact Bool.false_ne_true)]
              exact ih (homit s t i s₁ h hk hs) hrun

/-- The result has the property, or is a tolerated fault. -/
def Ends {α : Type} (tolerated : ε → Prop) (P : α → Prop) : Except ε α → Prop
  | .ok a => P a
  | .error e => tolerated e

theorem Ends.bind {α β : Type} {tolerated : ε → Prop} {P : α → Prop} {Q : β → Prop} {x : Except ε α}
    {f : α → Except ε β} (hx : Ends tolerated P x) (hf : ∀ a, P a → Ends tolerated Q (f a)) :
    Ends tolerated Q (x >>= f) := by
  cases x with
  | ok a => exact hf a hx
  | error e => exact hx

theorem Ends.mono {α : Type} {tolerated : ε → Prop} {P Q : α → Prop} {x : Except ε α} (hx : Ends tolerated P x)
    (h : ∀ a, P a → Q a) : Ends tolerated Q x := by
  cases x with
  | ok a => exact h a hx
  | error e => exact hx

theorem Ends.weaken {α : Type} {tolerated tolerated' : ε → Prop} {P : α → Prop} {x : Except ε α}
    (hx : Ends tolerated P x) (h : ∀ e, tolerated e → tolerated' e) : Ends tolerated' P x := by
  cases x with
  | ok a => exact hx
  | error e => exact h e hx

theorem Ends.exists_ok {α : Type} {P : α → Prop} {x : Except ε α} (hx : Ends (fun _ => False) P x) : ∃ a, x = .ok a ∧ P a := by
  cases x with
  | ok a => exact ⟨a, rfl, hx⟩
  | error e => exact hx.elim

/-- The run ends so if every guarded step does. -/
theorem run_ends {step : σ → ι → Except ε σ} {guard : σ → ι → Prop} {Inv : σ → Prop} {tolerated : ε → Prop}
    (hstep : ∀ s i, Inv s → guard s i → Ends tolerated Inv (step s i))
    {s : σ} (hs : Inv s) {is : List ι} (hg : Guarded step guard s is) : Ends tolerated Inv (run step s is) := by
  induction is generalizing s with
  | nil => exact hs
  | cons i is ih =>
      have hends := hstep s i hs hg.1
      cases h : step s i with
      | error e =>
          rw [run, h]
          rw [h] at hends
          exact hends
      | ok s₁ =>
          rw [run_cons_ok h]
          rw [h] at hends
          exact ih hends (hg.2 s₁ h)

/-- Every guarded run either ends in a state with the property, or with a tolerated fault. -/
theorem run_tolerates {step : σ → ι → Except ε σ} {guard : σ → ι → Prop} {Inv : σ → Prop} {tolerated : ε → Prop}
    (hok : ∀ s i s', Inv s → guard s i → step s i = .ok s' → Inv s')
    (herr : ∀ s i e, Inv s → guard s i → step s i = .error e → tolerated e)
    {s : σ} (hs : Inv s) {is : List ι} (hg : Guarded step guard s is) :
    (∃ s', run step s is = .ok s' ∧ Inv s') ∨ ∃ e, run step s is = .error e ∧ tolerated e := by
  induction is generalizing s with
  | nil => exact Or.inl ⟨s, rfl, hs⟩
  | cons i is ih =>
      cases h : step s i with
      | error e => exact Or.inr ⟨e, by rw [run, h], herr s i e hs hg.1 h⟩
      | ok s₁ =>
          rw [run_cons_ok h]
          exact ih (hok s i s₁ hs hg.1 h) (hg.2 s₁ h)

end Zngtcp2.Lib.Run
