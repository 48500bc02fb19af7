import Zngtcp2.Rx.Step
import Zngtcp2.Conn.Release

namespace Zngtcp2.Rx

open Reorder

/-- The entries of a stream lie in order above its consumed prefix and below its last offset. -/
structure Bounded (strm : Strm) : Prop where
  wf : strm.RxWF
  cont_le : strm.contOffset ≤ strm.lastOffset
  end_le : ∀ ent ∈ strm.entries, ent.range.endOff ≤ strm.lastOffset
  max_le : strm.maxOffset ≤ maxVarint
  unsent_le : strm.unsentMaxOffset ≤ maxVarint

/-- Where a stream stands when `n` bytes of it have been delivered. Outside of its callback the
consumed prefix is what was delivered and nothing is buffered at it. Inside the callback, `cb` is
the end of the data being delivered and the entry it comes from, which is still in the list. -/
def Placed (strm : Strm) (n : Nat) : Option (Nat × Option (Nat × Nat)) → Prop
  | none => n = strm.contOffset ∧ strm.rxOffset = strm.contOffset
  | some (rx, none) => n = rx ∧ strm.contOffset = rx
  | some (rx, some (offset, datalen)) =>
      n = rx ∧ strm.contOffset = offset ∧ offset + datalen = rx ∧
        ∃ ent rest, strm.reorder = some (ent :: rest) ∧ ent.range = ⟨offset, rx⟩

theorem firstGapOffset_le {lo : Nat} {entries : Entries} (h : WF lo entries) {bound c : Nat}
    (hend : ∀ ent ∈ entries, ent.range.endOff ≤ bound) (hc : c ≤ bound) : firstGapOffset entries c ≤ bound := by
  obtain ⟨h₁, h₂, -⟩ := firstGapOffset_spec h c
  rcases Nat.eq_or_lt_of_le h₁ with heq | hlt
  · omega
  · obtain ⟨ent, hm, hb, he⟩ := (covered_iff h _).mp (h₂ (firstGapOffset entries c - 1) (by omega) (by omega))
    have := hend ent hm
    omega

theorem Bounded.rxOffset_le {strm : Strm} (h : Bounded strm) : strm.rxOffset ≤ strm.lastOffset := by
  rw [Strm.rxOffset_eq]
  exact firstGapOffset_le h.wf h.end_le h.cont_le

theorem cont_le_rxOffset {strm : Strm} (h : strm.RxWF) : strm.contOffset ≤ strm.rxOffset := by
  rw [Strm.rxOffset_eq]
  exact (firstGapOffset_spec h _).1

theorem rxOffset_eq_cont_iff {strm : Strm} (h : strm.RxWF) :
    strm.rxOffset = strm.contOffset ↔ ¬ Covered strm.entries strm.contOffset := by
  rw [Strm.rxOffset_eq]
  constructor
  · intro heq
    rw [← heq]
    exact (firstGapOffset_spec h _).2.2
  · intro hn
    exact firstGapOffset_unique h (le_refl _) (fun o h₁ h₂ => by omega) hn

theorem removePrefix_end_le {entries : Entries} {bound : Nat} (h : ∀ ent ∈ entries, ent.range.endOff ≤ bound)
    (offset : Nat) : ∀ ent ∈ (removePrefix entries offset).1, ent.range.endOff ≤ bound := by
  induction entries with
  | nil => simp [removePrefix]
  | cons head rest ih =>
      have hhead := h head List.mem_cons_self
      have hrest : ∀ ent ∈ rest, ent.range.endOff ≤ bound := fun ent hm => h ent (List.mem_cons_of_mem _ hm)
      intro ent hm
      rw [removePrefix] at hm
      split at hm
      · exact h ent hm
      · split at hm
        · rcases List.mem_cons.mp hm with rfl | hm
          · exact hhead
          · exact hrest ent hm
        · exact ih hrest ent hm

theorem updateRxOffset_eq (strm : Strm) (offset : Nat) :
    (strm.updateRxOffset offset).1 =
      { strm with contOffset := offset, reorder := (strm.updateRxOffset offset).1.reorder } := by
  cases h : strm.reorder <;> simp [Strm.updateRxOffset, h]

theorem Bounded.updateRxOffset {strm : Strm} (h : Bounded strm) {offset : Nat} (hle : strm.contOffset ≤ offset)
    (hlast : offset ≤ strm.lastOffset) : Bounded (strm.updateRxOffset offset).1 := by
  have heq := updateRxOffset_eq strm offset
  have hl : (strm.updateRxOffset offset).1.lastOffset = strm.lastOffset := by rw [heq]
  refine ⟨Strm.updateRxOffset_wf h.wf hle, ?_, ?_, ?_, ?_⟩
  · rw [hl, Strm.updateRxOffset_contOffset]
    exact hlast
  · rw [hl, Strm.updateRxOffset_entries]
    exact removePrefix_end_le h.end_le offset
  · rw [heq]
    exact h.max_le
  · rw [heq]
    exact h.unsent_le

/-- Taking the in-order part of a frame that ends at or below the last offset moves the consumed
prefix to the end of the frame, and changes nothing else. -/
theorem takeInOrder_spec {strm : Strm} (h : Bounded strm) {fr : StreamFrame} (hoff : fr.offset ≤ strm.rxOffset)
    (hend : fr.endOffset ≤ strm.lastOffset) :
    ∃ strm' rels, Conn.takeInOrder strm fr strm.rxOffset =
        (strm', rels, strm.rxOffset + (fr.data.drop (strm.rxOffset - fr.offset)).length) ∧
      strm' = { strm with contOffset := strm'.contOffset, reorder := strm'.reorder } ∧ Bounded strm' ∧
      (strm.rxOffset = strm.contOffset →
        strm'.contOffset = strm.rxOffset + (fr.data.drop (strm.rxOffset - fr.offset)).length) ∧
      (strm.reorder = none → strm'.reorder = none) := by
  have hendeq : fr.endOffset = fr.offset + fr.data.length := rfl
  have hrx := h.rxOffset_le
  have hcont := cont_le_rxOffset h.wf
  by_cases hnil : fr.data = []
  · refine ⟨strm, [], ?_, rfl, h, fun heq => ?_, id⟩
    · rw [Conn.takeInOrder, if_pos hnil, hnil]
      simp
    · rw [hnil, ← heq]
      simp
  · have hlen : (fr.data.drop (strm.rxOffset - fr.offset)).length = fr.data.length - (strm.rxOffset - fr.offset) :=
      List.length_drop
    rw [hlen]
    set rx' := strm.rxOffset + (fr.data.length - (strm.rxOffset - fr.offset)) with hrx'
    refine ⟨(strm.updateRxOffset rx').1, (strm.updateRxOffset rx').2, ?_, by rw [updateRxOffset_eq],
      h.updateRxOffset ?_ ?_, fun _ => Strm.updateRxOffset_contOffset _ _, fun hr => ?_⟩
    · rw [Conn.takeInOrder, if_neg hnil]
    · omega
    · omega
    · simp [Strm.updateRxOffset, hr]

/-- Buffering a frame above the first gap keeps the stream bounded, and the gap where it is. -/
theorem Bounded.recvReordering {strm : Strm} (h : Bounded strm) (stats : BufStats) {data : List UInt8}
    {offset : Nat} (env : ReorderEnv) (hend : offset + data.length ≤ strm.lastOffset)
    (hmax : strm.lastOffset ≤ maxVarint) :
    Bounded (connRecvReordering stats strm data offset env).strm ∧
      (strm.contOffset < offset → ¬ Covered strm.entries strm.contOffset →
        ¬ Covered (connRecvReordering stats strm data offset env).strm.entries strm.contOffset) := by
  have hv : maxVarint < 2 ^ 64 := by simp [maxVarint]
  rcases Release.connRecvReordering_strm stats strm data offset env with heq | ⟨-, -, buf, owned, hbytes, heq⟩
  · rw [heq]
    exact ⟨h, fun _ hn => hn⟩
  · have hblen : buf.len = data.length := by rw [Buf.len, hbytes]
    have hoff : offset < 2 ^ 64 := by omega
    have hlen : buf.len < 2 ^ 64 := by omega
    have hwf := push_wf owned env.entryMem h.wf hoff hlen
    have hmem := fun {ent : Entry} (hm : ent ∈ (push strm.entries buf offset strm.contOffset owned env.entryMem).entries) =>
      push_mem owned env.entryMem h.wf hoff hlen hm
    rw [heq]
    refine ⟨⟨hwf, h.cont_le, ?_, h.max_le, h.unsent_le⟩, ?_⟩
    · intro ent hm
      rcases hmem hm with hold | ⟨-, hnew⟩
      · exact h.end_le ent hold
      · change ent.range.endOff ≤ strm.lastOffset
        omega
    · intro hlt hn hc
      rw [Release.entries_setReorder] at hc
      obtain ⟨ent, hm, hb, he⟩ := (covered_iff hwf _).mp hc
      rcases hmem hm with hold | ⟨hnew, -⟩
      · exact hn ((covered_iff h.wf _).mpr ⟨ent, hold, hb, he⟩)
      · omega

/-- The pop at the end of a delivery removes the delivered entry. -/
theorem pop_delivered {strm : Strm} (h : Bounded strm) {offset datalen rx : Nat} {ent : Entry} {rest : Entries}
    (hr : strm.reorder = some (ent :: rest)) (hcont : strm.contOffset = offset) (hrx : offset + datalen = rx)
    (hrange : ent.range = ⟨offset, rx⟩) :
    pop (ent :: rest) offset datalen = .ok (rest, [ent.release]) ∧
      Bounded { strm with reorder := some rest, contOffset := rx } := by
  have hent : strm.entries = ent :: rest := by simp [Strm.entries, hr]
  have hw : WF offset (ent :: rest) := by
    rw [← hent, ← hcont]
    exact h.wf
  have hb : ent.range.begin = offset := by rw [hrange]
  have he : ent.range.endOff = rx := by rw [hrange]
  have hlast : rx ≤ strm.lastOffset := by
    rw [← he]
    exact h.end_le ent (by rw [hent]; exact List.mem_cons_self)
  refine ⟨?_, ?_, hlast, ?_, h.max_le, h.unsent_le⟩
  · have hp := pop_head hw hb
    rwa [he, ← hrx, Nat.add_sub_cancel_left] at hp
  · have hrest := hw.2.2
    rwa [he] at hrest
  · intro e hm
    exact h.end_le e (by rw [hent]; exact List.mem_cons_of_mem _ hm)

end Zngtcp2.Rx
