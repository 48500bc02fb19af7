import Zngtcp2.Strm.Unacked

namespace Zngtcp2.Strm

open TxFrame

theorem kslInsert_perm {fr : TxFrame} {queue queue' : List TxFrame} (h : kslInsert fr queue = some queue') :
    queue'.Perm (fr :: queue) := by
  induction queue generalizing queue' with
  | nil =>
      cases h
      exact List.Perm.refl _
  | cons f fs ih =>
      rw [kslInsert] at h
      split at h
      · obtain ⟨q, hq, rfl⟩ := Option.map_eq_some_iff.mp h
        exact ((ih hq).cons f).trans (List.Perm.swap fr f fs)
      · split at h
        · cases h
        · cases h
          exact List.Perm.refl _

theorem kslInsert_mem {fr g : TxFrame} {queue queue' : List TxFrame} (h : kslInsert fr queue = some queue') :
    g ∈ queue' ↔ g = fr ∨ g ∈ queue := by
  rw [(kslInsert_perm h).mem_iff, List.mem_cons]

theorem kslInsert_length {fr : TxFrame} {queue queue' : List TxFrame} (h : kslInsert fr queue = some queue') :
    queue'.length = queue.length + 1 :=
  (kslInsert_perm h).length_eq

def QueueSorted (queue : List TxFrame) : Prop :=
  queue.Pairwise (fun a b => a.offset < b.offset)

theorem kslInsert_sorted {fr : TxFrame} {queue queue' : List TxFrame} (hs : QueueSorted queue)
    (h : kslInsert fr queue = some queue') : QueueSorted queue' := by
  induction queue generalizing queue' with
  | nil =>
      cases h
      exact List.pairwise_singleton _ _
  | cons f fs ih =>
      obtain ⟨hf, hfs⟩ := List.pairwise_cons.mp hs
      rw [kslInsert] at h
      split at h
      · rename_i hlt
        obtain ⟨q, hq, rfl⟩ := Option.map_eq_some_iff.mp h
        refine List.pairwise_cons.mpr ⟨?_, ih hfs hq⟩
        intro g hg
        rcases (kslInsert_mem hq).mp hg with rfl | hg
        · exact hlt
        · exact hf g hg
      · rename_i hge
        split at h
        · cases h
        · rename_i hne
          cases h
          refine List.pairwise_cons.mpr ⟨?_, hs⟩
          intro g hg
          rcases List.mem_cons.mp hg with rfl | hg
          · omega
          · have := hf g hg
            omega

theorem kslInsert_isSome {fr : TxFrame} {queue : List TxFrame} (hne : ∀ f ∈ queue, f.offset ≠ fr.offset) :
    ∃ queue', kslInsert fr queue = some queue' := by
  induction queue with
  | nil => exact ⟨[fr], rfl⟩
  | cons f fs ih =>
      rw [kslInsert]
      split
      · obtain ⟨q, hq⟩ := ih (fun g hg => hne g (List.mem_cons_of_mem f hg))
        exact ⟨f :: q, by rw [hq, Option.map_some]⟩
      · rw [if_neg (hne f List.mem_cons_self)]
        exact ⟨_, rfl⟩

/-- A frame in front of the others is put back in front of them. -/
theorem kslInsert_head {fr : TxFrame} {queue : List TxFrame} (hlt : ∀ f ∈ queue, fr.offset < f.offset) :
    kslInsert fr queue = some (fr :: queue) := by
  cases queue with
  | nil => rfl
  | cons f fs =>
      have := hlt f List.mem_cons_self
      rw [kslInsert, if_neg (by omega), if_neg (by omega)]

theorem putBack_ok {fr : TxFrame} {queue queue' : List TxFrame} (h : putBack queue fr = .ok queue') :
    kslInsert fr queue = some queue' := by
  rw [putBack] at h
  split at h
  · cases h
    assumption
  · cases h

theorem streamfrqPush_ok {fr : TxFrame} {queue queue' : List TxFrame} (h : streamfrqPush queue fr = .ok queue') :
    queue.length < 8000 ∧ kslInsert fr queue = some queue' := by
  rw [streamfrqPush] at h
  split at h
  · cases h
  · split at h
    · rename_i hlt _ _ hins
      cases h
      exact ⟨Nat.not_le.mp hlt, hins⟩
    · cases h

/-- The frame has a byte that is not acknowledged. -/
def wanted (acked : Acked) (fr : TxFrame) : Bool :=
  match acked.unackedRangeAfter fr.offset with
  | some gap => meetsGap gap fr
  | none => false

theorem wanted_iff {acked : Acked} {bound : Nat} (h : acked.Wf bound) {fr : TxFrame} (hle : fr.endOff ≤ bound) :
    wanted acked fr = true ↔ ¬fr.AllAcked acked.Missing := by
  have hoff : fr.offset ≤ fr.endOff := Nat.le_add_right _ _
  obtain ⟨gap, hgap, hfirst⟩ := h.unackedRangeAfter_spec (Nat.le_trans hoff hle)
  have hlt := hfirst.lt
  have hafter := hfirst.after
  simp only [wanted, hgap, meetsGap, decide_eq_true_eq, TxFrame.AllAcked]
  constructor
  · intro hmeet hall
    exact hall (max fr.offset gap.begin) (Nat.le_max_left _ _) (by omega) (hfirst.inside _ (Nat.le_max_right _ _) (by omega))
  · intro hnot
    by_contra hmeet
    refine hnot (fun x hx hx' => hfirst.before x hx ?_)
    omega

namespace TxStrm

variable {s : TxStrm}

/-- A frame that `strm_streamfrq_unacked_pop` throws away. -/
structure Deleted (s : TxStrm) (fr : TxFrame) : Prop where
  acked : fr.AllAcked s.acked.Missing
  fin : fr.fin = true → s.finAcked = true
  opens : fr.fin = false → ¬s.opens fr

theorem unackedPop_cons_outcome {bound : Nat} (hs : s.acked.Wf bound) {fr : TxFrame} (hok : fr.Ok)
    (hle : fr.endOff ≤ bound) (rest : List TxFrame) :
    (s.Deleted fr ∧ (fr.fin = true → rest = []) ∧ s.unackedPop (fr :: rest) = s.unackedPop rest) ∨
      (PopOutcome s fr rest (s.unackedPop (fr :: rest)) ∧ s.unackedPop (fr :: rest) ≠ .ok none) := by
  have hout : PopOutcome s fr rest (s.unackedPopFrame fr rest) := by
    rw [unackedPopFrame]
    cases htx : fr.txbuf with
    | some txbuf => exact unackedPopTxbuf_outcome hs hok htx hle rest
    | none => exact unackedPopVec_outcome hs hok htx hle rest
  rw [unackedPop]
  generalize s.unackedPopFrame fr rest = r at hout
  cases r with
  | error e => exact Or.inr ⟨hout, by simp⟩
  | ok r =>
      cases r with
      | some p => exact Or.inr ⟨hout, by simp⟩
      | none =>
          refine Or.inl ?_
          generalize hr : (Except.ok none : Except Stop Popped) = r at hout
          cases hout with
          | deleted hall hfin hopens => exact ⟨⟨hall, fun h => (hfin h).1, hopens⟩, fun h => (hfin h).2, rfl⟩
          | notLast => cases hr
          | whole p _ _ => cases hr
          | split p q _ =>
              cases hq : putBack rest q with
              | ok queue =>
                  rw [hq] at hr
                  cases hr
              | error e =>
                  rw [hq] at hr
                  cases hr

/-- The frames in front that are thrown away, and the frame that is sent or cut. -/
theorem unackedPop_outcome {bound : Nat} (hs : s.acked.Wf bound) {queue : List TxFrame}
    (hq : ∀ fr ∈ queue, fr.Ok ∧ fr.endOff ≤ bound) :
    ((∀ fr ∈ queue, s.Deleted fr) ∧ s.unackedPop queue = .ok none) ∨
      ∃ gone fr rest, queue = gone ++ fr :: rest ∧ (∀ d ∈ gone, s.Deleted d ∧ d.fin = false) ∧
        PopOutcome s fr rest (s.unackedPop queue) ∧ s.unackedPop queue ≠ .ok none := by
  induction queue with
  | nil => exact Or.inl ⟨by simp, rfl⟩
  | cons fr rest ih =>
      obtain ⟨hok, hle⟩ := hq fr List.mem_cons_self
      have ih := ih (fun g hg => hq g (List.mem_cons_of_mem fr hg))
      rcases unackedPop_cons_outcome hs hok hle rest with ⟨hdel, hfin, heq⟩ | hout
      · rcases ih with ⟨hall, hnone⟩ | ⟨gone, g, rest', rfl, hgone, hout, hne⟩
        · exact Or.inl ⟨List.forall_mem_cons.mpr ⟨hdel, hall⟩, heq.trans hnone⟩
        · refine Or.inr ⟨fr :: gone, g, rest', rfl, List.forall_mem_cons.mpr ⟨⟨hdel, ?_⟩, hgone⟩, heq ▸ hout, heq ▸ hne⟩
          cases hf : fr.fin with
          | false => rfl
          | true => exact absurd (hfin hf) (by simp)
      · exact Or.inr ⟨[], fr, rest, rfl, by simp, hout⟩

end TxStrm

end Zngtcp2.Strm
