import Mathlib.Data.List.Basic
import Mathlib.Algebra.Order.Ring.Int

namespace Zngtcp2.Lib

/-- A log of numbered items, each of which belongs to an epoch. The epochs follow the numbers: `cur` is the
epoch of every item numbered `first` or above, and no item has a number above `last`. -/
structure Epochs {α : Type} (num : α → Int) (epoch : α → Nat) (log : List α) (cur : Nat) (first last : Int) :
    Prop where
  num_le : ∀ a ∈ log, num a ≤ last
  epoch_le : ∀ a ∈ log, epoch a ≤ cur
  mono : ∀ a ∈ log, ∀ b ∈ log, num a ≤ num b → epoch a ≤ epoch b
  unique : ∀ a ∈ log, ∀ b ∈ log, num a = num b → a = b
  current : ∀ a ∈ log, first ≤ num a → epoch a = cur

namespace Epochs

variable {α : Type} {num : α → Int} {epoch : α → Nat} {log : List α} {cur : Nat} {first last : Int}

theorem skip (h : Epochs num epoch log cur first last) {last' : Int} (hle : last ≤ last') :
    Epochs num epoch log cur first last' :=
  ⟨fun a ha => (h.num_le a ha).trans hle, h.epoch_le, h.mono, h.unique, h.current⟩

/-- The next epoch begins behind every item of the log. -/
theorem advance (h : Epochs num epoch log cur first last) {cur' : Nat} (hle : cur ≤ cur') :
    Epochs num epoch log cur' (last + 1) last := by
  refine ⟨h.num_le, fun a ha => (h.epoch_le a ha).trans hle, h.mono, h.unique, ?_⟩
  intro a ha hfirst
  exact absurd (h.num_le a ha) (Int.not_le.mpr hfirst)

theorem append (h : Epochs num epoch log cur first last) {a : α} (hnum : last < num a) (hepoch : epoch a = cur) :
    Epochs num epoch (a :: log) cur first (num a) := by
  have hlt : ∀ b ∈ log, num b < num a := fun b hb => Int.lt_of_le_of_lt (h.num_le b hb) hnum
  constructor
  · intro b hb
    rcases List.mem_cons.mp hb with rfl | hb
    · exact le_rfl
    · exact (hlt b hb).le
  · intro b hb
    rcases List.mem_cons.mp hb with rfl | hb
    · exact hepoch.le
    · exact h.epoch_le b hb
  · intro b hb c hc hle
    rcases List.mem_cons.mp hb with rfl | hb' <;> rcases List.mem_cons.mp hc with rfl | hc'
    · exact le_rfl
    · exact absurd hle (Int.not_le.mpr (hlt c hc'))
    · exact (h.epoch_le b hb').trans hepoch.ge
    · exact h.mono b hb' c hc' hle
  · intro b hb c hc heq
    rcases List.mem_cons.mp hb with rfl | hb' <;> rcases List.mem_cons.mp hc with rfl | hc'
    · rfl
    · exact absurd heq.symm (hlt c hc').ne
    · exact absurd heq (hlt b hb').ne
    · exact h.unique b hb' c hc' heq
  · intro b hb hfirst
    rcases List.mem_cons.mp hb with rfl | hb
    · exact hepoch
    · exact h.current b hb hfirst

end Epochs

end Zngtcp2.Lib
