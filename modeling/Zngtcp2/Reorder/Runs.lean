import Zngtcp2.Reorder.Push
import Zngtcp2.Lib.Run

namespace Zngtcp2.Reorder

open Lib.Segment Lib.Run

/-- The calls a stream makes on its reorder list. Data is popped at the consumed prefix, with the
length that `data_at` returns there. -/
inductive Op
  | push (buf : Buf) (offset : Nat) (allocatorOwned mem : Bool)
  | pop
  | removePrefix (offset : Nat)
  deriving DecidableEq, Repr

/-- A reorder list with the consumed prefix, and the history of the pushes that succeeded, the
oldest first. -/
structure St where
  entries : Entries
  cont : Nat
  pushed : List (Nat × List UInt8)
  deriving DecidableEq, Repr

def init (cont : Nat) : St := ⟨[], cont, []⟩

def step (st : St) : Op → Except Fault St
  | .push buf offset allocatorOwned mem =>
      let r := push st.entries buf offset st.cont allocatorOwned mem
      .ok ⟨r.entries, st.cont, if r.rv = .ok then st.pushed ++ [(offset, buf.bytes)] else st.pushed⟩
  | .pop =>
      match dataAt st.entries st.cont with
      | .error f => .error f
      | .ok none => .ok st
      | .ok (some (_, len)) =>
          match pop st.entries st.cont len with
          | .error f => .error f
          | .ok (entries, _) => .ok ⟨entries, st.cont + len, st.pushed⟩
  | .removePrefix offset => .ok ⟨(removePrefix st.entries offset).1, offset, st.pushed⟩

/-- The byte that the earliest push covering `o` carried for it. -/
def firstPushed : List (Nat × List UInt8) → Nat → Option UInt8
  | [] => fun _ => none
  | (offset, bytes) :: rest => overlay (segAt offset bytes) (firstPushed rest)

def InSomePush (pushed : List (Nat × List UInt8)) (o : Nat) : Prop :=
  ∃ p ∈ pushed, p.1 ≤ o ∧ o < p.1 + p.2.length

instance (pushed : List (Nat × List UInt8)) (o : Nat) : Decidable (InSomePush pushed o) :=
  inferInstanceAs (Decidable (∃ p ∈ pushed, _))

/-- The arguments are 64-bit, and the consumed prefix never moves back. -/
def Valid (st : St) : Op → Prop
  | .push buf offset _ _ => offset < 2 ^ 64 ∧ buf.len < 2 ^ 64
  | .pop => True
  | .removePrefix offset => st.cont ≤ offset

/-- No buffered byte of the frame lies between two bytes of it that are still wanted. -/
def Contiguous (entries : Entries) (contOffset offset len : Nat) : Prop :=
  ∀ a b c, a < b → b < c → Wanted entries contOffset offset len a → Wanted entries contOffset offset len c →
    Wanted entries contOffset offset len b

theorem contiguous_iff (entries : Entries) (contOffset offset len : Nat) :
    Contiguous entries contOffset offset len ↔
      ∀ k < len, ∀ j < k, ∀ i < j, Wanted entries contOffset offset len (offset + i) →
        Wanted entries contOffset offset len (offset + k) → Wanted entries contOffset offset len (offset + j) := by
  constructor
  · intro h k _ j hj i hi
    exact h (offset + i) (offset + j) (offset + k) (by omega) (by omega)
  · intro h a b c hab hbc ha hc
    have ha' := ha.1
    have hc' := hc.2.1
    have heq := h (c - offset) (by omega) (b - offset) (by omega) (a - offset) (by omega)
    rw [Nat.add_sub_cancel' ha', Nat.add_sub_cancel' hc.1, Nat.add_sub_cancel' (by omega)] at heq
    exact heq ha hc

instance (entries : Entries) (contOffset offset len : Nat) : Decidable (Contiguous entries contOffset offset len) :=
  decidable_of_iff _ (contiguous_iff entries contOffset offset len).symm

def Unsplit (st : St) : Op → Prop
  | .push buf offset _ _ => Contiguous st.entries st.cont offset buf.len
  | .pop | .removePrefix _ => True

instance (st : St) : (op : Op) → Decidable (Valid st op)
  | .push buf offset _ _ => inferInstanceAs (Decidable (offset < 2 ^ 64 ∧ buf.len < 2 ^ 64))
  | .pop => .isTrue trivial
  | .removePrefix offset => inferInstanceAs (Decidable (st.cont ≤ offset))

instance (st : St) : (op : Op) → Decidable (Unsplit st op)
  | .push buf offset _ _ => inferInstanceAs (Decidable (Contiguous st.entries st.cont offset buf.len))
  | .pop => .isTrue trivial
  | .removePrefix _ => .isTrue trivial

/-- The list represents the union of the pushed ranges above the consumed prefix. -/
structure Represents (st : St) : Prop where
  sorted : st.entries.Pairwise (fun a b => a.range.endOff ≤ b.range.begin)
  nonempty : ∀ ent ∈ st.entries, ent.range.begin < ent.range.endOff
  holds : ∀ ent ∈ st.entries, ent.buf.len = ent.range.endOff - ent.range.begin
  bytes : ∀ ent ∈ st.entries, ∀ o, ent.range.begin ≤ o → o < ent.range.endOff →
    ent.buf.bytes[o - ent.range.begin]? = firstPushed st.pushed o
  union : ∀ o, (o < st.cont ∨ ∃ ent ∈ st.entries, ent.range.begin ≤ o ∧ o < ent.range.endOff) ↔
    (o < st.cont ∨ InSomePush st.pushed o)
  gap : st.cont ≤ firstGapOffset st.entries st.cont ∧
    (∀ o, st.cont ≤ o → o < firstGapOffset st.entries st.cont → InSomePush st.pushed o) ∧
    ¬ InSomePush st.pushed (firstGapOffset st.entries st.cont)
  nwrite : ∀ buf offset allocatorOwned mem, offset < 2 ^ 64 → buf.len < 2 ^ 64 →
    Contiguous st.entries st.cont offset buf.len →
    (push st.entries buf offset st.cont allocatorOwned mem).rv = .ok →
    (push st.entries buf offset st.cont allocatorOwned mem).nwrite =
      ((Finset.Ico offset (offset + buf.len)).filter (Wanted st.entries st.cont offset buf.len)).card

/-- The invariant of the runs: above the consumed prefix the list holds, offset by offset, what
was pushed first. -/
structure Inv (st : St) : Prop where
  wf : WF st.cont st.entries
  view_eq : ∀ o, st.cont ≤ o → view st.entries o = firstPushed st.pushed o

theorem firstPushed_append (pushed : List (Nat × List UInt8)) (offset : Nat) (bytes : List UInt8) :
    firstPushed (pushed ++ [(offset, bytes)]) = overlay (firstPushed pushed) (segAt offset bytes) := by
  induction pushed with
  | nil => funext o; simp [firstPushed, overlay]
  | cons p pushed ih => funext o; simp [firstPushed, overlay, ih, Option.or_assoc]

theorem firstPushed_isSome (pushed : List (Nat × List UInt8)) (o : Nat) :
    (firstPushed pushed o).isSome ↔ InSomePush pushed o := by
  induction pushed with
  | nil => simp [firstPushed, InSomePush]
  | cons p pushed ih =>
      rw [firstPushed, overlay_isSome, ih, segAt_isSome]
      simp [InSomePush]

theorem segAt_trim {b e offset : Nat} {bytes : List UInt8} (hob : offset ≤ b) (hbe : b ≤ e) (o : Nat) :
    segAt b ((bytes.drop (b - offset)).take (e - b)) o = if b ≤ o ∧ o < e then segAt offset bytes o else none := by
  have hd := segAt_drop offset (b - offset) bytes o
  rw [show offset + (b - offset) = b by omega] at hd
  rw [segAt_take, hd, show b + (e - b) = e by omega]
  by_cases hlt : o < e <;> by_cases hle : b ≤ o <;> simp [hlt, hle]

/-- The view after an insertion: the old bytes, and the part `[b, e)` of the frame. -/
theorem view_inserted {pre post : Entries} {buf : Buf} {offset b e : Nat} {allocatorOwned : Bool}
    (hob : offset ≤ b) (hbe : b < e) (hin : ∀ o, b ≤ o → o < e → ¬ Covered (pre ++ post) o) (o : Nat) :
    view (pre ++ cutEntry buf offset b e allocatorOwned :: post) o =
      (view (pre ++ post) o).or (if b ≤ o ∧ o < e then segAt offset buf.bytes o else none) := by
  rw [view_insert]
  · simp only [overlay, cutEntry, Buf.truncate, Buf.advance, segAt_trim hob hbe.le]
  · intro o ho
    simp only [cutEntry, Buf.truncate, Buf.advance, segAt_trim hob hbe.le] at ho
    split at ho
    · rename_i h
      exact view_eq_none_of_not_covered (hin o h.1 h.2)
    · simp at ho

/-- What a push has to add: every wanted byte of the frame. -/
def Adds (entries entries' : Entries) (contOffset offset : Nat) (bytes : List UInt8) : Prop :=
  ∀ o, contOffset ≤ o → view entries' o = overlay (view entries) (segAt offset bytes) o

theorem adds_refl {entries : Entries} {contOffset offset : Nat} {buf : Buf}
    (hnone : ∀ o, ¬ Wanted entries contOffset offset buf.len o) :
    Adds entries entries contOffset offset buf.bytes := by
  intro o ho
  have hw := hnone o
  simp only [overlay]
  by_cases hc : Covered entries o
  · rw [Option.or_of_isSome hc]
  · have hs : segAt offset buf.bytes o = none := by
      rw [segAt_eq_none]
      by_contra hcon
      exact hw ⟨by omega, by simp only [Buf.len]; omega, ho, hc⟩
    rw [hs, Option.or_none]

/-- A push that succeeds adds every wanted byte exactly when these bytes are contiguous. -/
theorem push_adds_iff {entries : Entries} {buf : Buf} {offset contOffset : Nat} (allocatorOwned mem : Bool)
    (hwf : WF contOffset entries) (hoff : offset < 2 ^ 64) (hlen : buf.len < 2 ^ 64)
    (hrv : (push entries buf offset contOffset allocatorOwned mem).rv = .ok) :
    Adds entries (push entries buf offset contOffset allocatorOwned mem).entries contOffset offset buf.bytes ↔
      Contiguous entries contOffset offset buf.len := by
  have hout := push_outcome allocatorOwned mem hwf hoff hlen
  revert hrv hout
  generalize push entries buf offset contOffset allocatorOwned mem = r
  intro hrv hout
  cases hout with
  | overflow | noMemory => cases hrv
  | dropped n hlt h =>
      exact iff_of_true (adds_refl h) (fun a b c _ _ ha _ => absurd ha (h a))
  | inserted pre post b e hlt hm hsplit hob hcb hbe hend hw hbefore hin hstop =>
      subst hsplit
      have hl : buf.len = buf.bytes.length := rfl
      constructor
      · intro hadds x y z hxy hyz hx hz
        have hza := hadds z hz.2.2.1
        have hnone := view_eq_none_of_not_covered hz.2.2.2
        rw [view_inserted hob hbe hin] at hza
        simp only [overlay, hnone, Option.none_or] at hza
        have hzs : (segAt offset buf.bytes z).isSome := segAt_isSome.mpr ⟨hz.1, by have := hz.2.1; omega⟩
        have hze : z < e := by
          by_contra hcon
          rw [if_neg (by omega)] at hza
          rw [← hza] at hzs
          cases hzs
        have hbx := hbefore x hx
        exact ⟨by omega, by omega, by omega, hin y (by omega) (by omega)⟩
      · intro hcontig o ho
        rw [view_inserted hob hbe hin]
        simp only [overlay]
        by_cases hc : Covered (pre ++ post) o
        · rw [Option.or_of_isSome hc, Option.or_of_isSome hc]
        · by_cases hw' : Wanted (pre ++ post) contOffset offset buf.len o
          · have hbo := hbefore o hw'
            have hoe : o < e := by
              by_contra hcon
              rcases hstop with rfl | hstop
              · exact hcon hw'.2.1
              · have hlast : Wanted (pre ++ post) contOffset offset buf.len (e - 1) :=
                  ⟨by omega, by omega, by omega, hin (e - 1) (by omega) (by omega)⟩
                have hne : o ≠ e := fun heq => hc (heq ▸ hstop)
                exact (hcontig (e - 1) e o (by omega) (by omega) hlast hw').2.2.2 hstop
            rw [if_pos ⟨hbo, hoe⟩]
          · have hs : segAt offset buf.bytes o = none := by
              rw [segAt_eq_none]
              by_contra hcon
              exact hw' ⟨by omega, by omega, ho, hc⟩
            simp [hs]

theorem push_nwrite {entries : Entries} {buf : Buf} {offset contOffset : Nat} (allocatorOwned mem : Bool)
    (hwf : WF contOffset entries) (hoff : offset < 2 ^ 64) (hlen : buf.len < 2 ^ 64)
    (hcontig : Contiguous entries contOffset offset buf.len)
    (hrv : (push entries buf offset contOffset allocatorOwned mem).rv = .ok) :
    (push entries buf offset contOffset allocatorOwned mem).nwrite =
      ((Finset.Ico offset (offset + buf.len)).filter (Wanted entries contOffset offset buf.len)).card := by
  have hout := push_outcome allocatorOwned mem hwf hoff hlen
  revert hrv hout
  generalize push entries buf offset contOffset allocatorOwned mem = r
  intro hrv hout
  cases hout with
  | overflow | noMemory => cases hrv
  | dropped n hlt h =>
      symm
      rw [Finset.card_eq_zero, Finset.filter_eq_empty_iff]
      exact fun o _ => h o
  | inserted pre post b e hlt hm hsplit hob hcb hbe hend hw hbefore hin hstop =>
      have heq : (Finset.Ico offset (offset + buf.len)).filter (Wanted entries contOffset offset buf.len) =
          Finset.Ico b e := by
        ext o
        simp only [Finset.mem_filter, Finset.mem_Ico]
        constructor
        · rintro ⟨-, hwant⟩
          refine ⟨hbefore o hwant, ?_⟩
          by_contra hcon
          rcases hstop with rfl | hstop
          · exact hcon hwant.2.1
          · have hlast : Wanted entries contOffset offset buf.len (e - 1) :=
              ⟨by omega, by omega, by omega, hin (e - 1) (by omega) (by omega)⟩
            have hne : o ≠ e := fun heq => hwant.2.2.2 (heq ▸ hstop)
            exact (hcontig (e - 1) e o (by omega) (by omega) hlast hwant).2.2.2 hstop
        · rintro ⟨hb, he⟩
          exact ⟨⟨by omega, by omega⟩, by omega, by omega, by omega, hin o hb he⟩
      rw [heq, Nat.card_Ico]

theorem init_inv (cont : Nat) : Inv (init cont) :=
  ⟨trivial, fun _ _ => rfl⟩

theorem step_inv (st : St) (op : Op) (hinv : Inv st) (hg : Valid st op ∧ Unsplit st op) :
    ∃ st', step st op = .ok st' ∧ Inv st' := by
  cases op with
  | push buf offset allocatorOwned mem =>
      obtain ⟨⟨hoff, hlen⟩, hcontig⟩ := hg
      refine ⟨_, rfl, push_wf allocatorOwned mem hinv.wf hoff hlen, ?_⟩
      intro o ho
      by_cases hrv : (push st.entries buf offset st.cont allocatorOwned mem).rv = .ok
      · simp only [hrv, if_true, firstPushed_append]
        rw [(push_adds_iff allocatorOwned mem hinv.wf hoff hlen hrv).mpr hcontig o ho]
        simp only [overlay, hinv.view_eq o ho]
      · simp only [if_neg hrv]
        rw [push_entries_of_error allocatorOwned mem hinv.wf hoff hlen hrv]
        exact hinv.view_eq o ho
  | pop =>
      cases hent : st.entries with
      | nil => exact ⟨st, by simp only [step, hent, dataAt], hinv⟩
      | cons ent rest =>
          have hwf := hinv.wf
          rw [hent] at hwf
          have hdata := dataAt_head hwf
          by_cases hb : ent.range.begin = st.cont
          · rw [if_pos hb] at hdata
            have hlt := hwf.2.1.1
            have hend : st.cont + (ent.range.endOff - st.cont) = ent.range.endOff := by omega
            refine ⟨⟨rest, st.cont + (ent.range.endOff - st.cont), st.pushed⟩, ?_, ?_, ?_⟩
            · simp only [step, hent, hdata, pop_head hwf hb]
            · simpa only [hend] using hwf.2.2
            · intro o ho
              simp only [hend] at ho
              have hnone : segAt ent.range.begin ent.buf.bytes o = none := by
                rw [← Option.not_isSome_iff_eq_none, hwf.2.1.segAt_isSome]
                omega
              rw [← hinv.view_eq o (by omega), hent]
              simp only [view, overlay, hnone, Option.none_or]
          · rw [if_neg hb] at hdata
            exact ⟨st, by simp only [step, hent, hdata], hinv⟩
  | removePrefix offset =>
      refine ⟨_, rfl, removePrefix_wf hinv.wf hg.1, ?_⟩
      intro o ho
      have hle : st.cont ≤ offset := hg.1
      simp only [removePrefix_view hinv.wf]
      rw [restrict, if_pos ho]
      exact hinv.view_eq o (le_trans hle ho)

theorem Inv.covered_iff_pushed {st : St} (h : Inv st) {o : Nat} (ho : st.cont ≤ o) :
    Covered st.entries o ↔ InSomePush st.pushed o := by
  rw [Covered, h.view_eq o ho, firstPushed_isSome]

theorem Inv.represents {st : St} (h : Inv st) : Represents st := by
  obtain ⟨hsorted, hall⟩ := h.wf.pairwise
  obtain ⟨hg₁, hg₂, hg₃⟩ := firstGapOffset_spec h.wf st.cont
  refine ⟨hsorted, fun ent hm => (hall ent hm).2.1, fun ent hm => (hall ent hm).2.2, ?_, ?_, ?_, ?_⟩
  · intro ent hm o hb he
    rw [← h.view_eq o (le_trans (hall ent hm).1 hb), view_eq_of_mem h.wf hm hb he]
    simp [segAt, hb]
  · intro o
    rw [← covered_iff h.wf]
    by_cases ho : o < st.cont
    · simp [ho]
    · simp only [ho, false_or]
      exact h.covered_iff_pushed (by omega)
  · exact ⟨hg₁, fun o ho ho' => (h.covered_iff_pushed ho).mp (hg₂ o ho ho'),
      fun hp => hg₃ ((h.covered_iff_pushed hg₁).mpr hp)⟩
  · intro buf offset allocatorOwned mem hoff hlen hcontig hrv
    exact push_nwrite allocatorOwned mem h.wf hoff hlen hcontig hrv

/-- Every run of a reorder list whose pushes never find a buffered fragment in the middle of the
bytes they still have to add represents the union of what was pushed, and no assertion fires. -/
theorem run_represents (cont : Nat) (ops : List Op)
    (hops : Guarded step (fun st op => Valid st op ∧ Unsplit st op) (init cont) ops) :
    ∃ st, run step (init cont) ops = .ok st ∧ Represents st := by
  obtain ⟨st, hrun, hinv⟩ := run_invariant step_inv (init_inv cont) hops
  exact ⟨st, hrun, hinv.represents⟩

/-- Two overlapping fragments, an in-order advance and a pop. -/
theorem run_represents_overlap :
    ∃ st, run step (init 0) [.push ⟨1, [12, 13]⟩ 12 false true, .push ⟨2, [10, 11, 12, 13]⟩ 10 false true,
      .removePrefix 10, .pop] = .ok st ∧ Represents st :=
  run_represents 0 _ (by decide +kernel)

def splitPush : List Op :=
  [.push ⟨1, [12, 13]⟩ 12 false true, .push ⟨2, [10, 11, 12, 13, 14, 15, 16, 17, 18, 19]⟩ 10 false true]

/-- The second push spans the fragment buffered by the first: the bytes beyond it are dropped. -/
theorem splitPush_not_represented :
    ¬ ∀ ops, Guarded step Valid (init 0) ops → ∃ st, run step (init 0) ops = .ok st ∧ Represents st := by
  intro h
  obtain ⟨st, hrun, hrep⟩ := h splitPush (by decide +kernel)
  have hst : run step (init 0) splitPush =
      .ok ⟨[⟨⟨10, 12⟩, ⟨2, [10, 11]⟩, false⟩, ⟨⟨12, 14⟩, ⟨1, [12, 13]⟩, false⟩], 0,
        [(12, [12, 13]), (10, [10, 11, 12, 13, 14, 15, 16, 17, 18, 19])]⟩ := by rfl
  rw [hst] at hrun
  cases hrun
  have hin : InSomePush [(12, [12, 13]), (10, [10, 11, 12, 13, 14, 15, 16, 17, 18, 19])] 14 :=
    ⟨(10, [10, 11, 12, 13, 14, 15, 16, 17, 18, 19]), by simp, by simp, by simp⟩
  rcases (hrep.union 14).mpr (Or.inr hin) with hlt | ⟨ent, hm, hb, he⟩
  · exact absurd hlt (by simp)
  · simp only [List.mem_cons, List.not_mem_nil, or_false] at hm
    rcases hm with rfl | rfl
    · simp at he
    · simp at he

end Zngtcp2.Reorder
