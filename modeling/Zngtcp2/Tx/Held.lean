import Zngtcp2.Tx.Stream

namespace Zngtcp2.StreamTx

open Strm TxStrm TxFrame Gaptr Lib.Run

/-- One of the frames ends where the other starts or before, and is not the one with FIN. -/
def Apart (a b : TxFrame) : Prop :=
  (a.endOff ≤ b.offset ∧ a.fin = false) ∨ (b.endOff ≤ a.offset ∧ b.fin = false)

theorem Apart.symm {a b : TxFrame} (h : Apart a b) : Apart b a :=
  Or.symm h

/-- A frame of the stream: retained data or none, within what was accepted, FIN at the end of it. -/
structure FrameOf (s : TxStrm) (f : TxFrame) : Prop where
  ok : f.Ok
  data : f.data = []
  le : f.endOff ≤ s.offset
  fin : f.fin = true → f.endOff = s.offset ∧ s.shutWr = true

/-- The queue of a stream and the frames `held` for it elsewhere. -/
structure Tidy (s : TxStrm) (held : List TxFrame) : Prop where
  type : s.type = .stream
  wf : s.acked.Wf s.offset
  frames : ∀ f ∈ s.queue ++ held, FrameOf s f
  apart : (s.queue ++ held).Pairwise Apart
  sorted : QueueSorted s.queue

/-- Every byte that was accepted and is not acknowledged is in one of the frames, and so is FIN. -/
structure Covered (s : TxStrm) (held : List TxFrame) : Prop where
  bytes : ∀ x < s.offset, s.acked.Missing x → ∃ f ∈ s.queue ++ held, f.offset ≤ x ∧ x < f.endOff
  fin : s.shutWr = true → s.finAcked = true ∨ ∃ f ∈ s.queue ++ held, f.fin = true

theorem Tidy.perm {s : TxStrm} {queue held held' : List TxFrame} (h : Tidy s held)
    (hp : (queue ++ held').Perm (s.queue ++ held)) (hs : QueueSorted queue) : Tidy { s with queue := queue } held' := by
  refine ⟨h.type, h.wf, ?_, ?_, hs⟩
  · intro f hf
    have hf' := h.frames f (hp.mem_iff.mp hf)
    exact ⟨hf'.ok, hf'.data, hf'.le, hf'.fin⟩
  · exact (hp.pairwise_iff Apart.symm).mpr h.apart

theorem Covered.perm {s : TxStrm} {queue held held' : List TxFrame} (h : Covered s held)
    (hp : (queue ++ held').Perm (s.queue ++ held)) : Covered { s with queue := queue } held' := by
  constructor
  · intro x hx hm
    obtain ⟨f, hf, hin⟩ := h.bytes x hx hm
    exact ⟨f, hp.mem_iff.mpr hf, hin⟩
  · intro hshut
    rcases h.fin hshut with hacked | ⟨f, hf, hfin⟩
    · exact Or.inl hacked
    · exact Or.inr ⟨f, hp.mem_iff.mpr hf, hfin⟩

theorem Tidy.sublist {s : TxStrm} {queue held held' : List TxFrame} (h : Tidy s held) (hq : queue.Sublist s.queue)
    (hl : held'.Sublist held) : Tidy { s with queue := queue } held' := by
  have hsub := hq.append hl
  refine ⟨h.type, h.wf, ?_, h.apart.sublist hsub, h.sorted.sublist hq⟩
  intro f hf
  have hf' := h.frames f (hsub.subset hf)
  exact ⟨hf'.ok, hf'.data, hf'.le, hf'.fin⟩

/-- A frame is forgotten whose bytes, and FIN if it has it, are acknowledged. -/
theorem Covered.forget {s : TxStrm} {queue held held' : List TxFrame} (h : Covered s held)
    (hgone : ∀ f ∈ s.queue ++ held, f ∈ queue ++ held' ∨
      (f.AllAcked s.acked.Missing ∧ (f.fin = true → s.finAcked = true))) :
    Covered { s with queue := queue } held' := by
  constructor
  · intro x hx hm
    obtain ⟨f, hf, hle, hlt⟩ := h.bytes x hx hm
    rcases hgone f hf with hf' | ⟨hall, _⟩
    · exact ⟨f, hf', hle, hlt⟩
    · exact absurd hm (hall x hle hlt)
  · intro hshut
    rcases h.fin hshut with hacked | ⟨f, hf, hfin⟩
    · exact Or.inl hacked
    · rcases hgone f hf with hf' | ⟨_, hacked⟩
      · exact Or.inr ⟨f, hf', hfin⟩
      · exact Or.inl (hacked hfin)

/-- Two frames apart from each other have the same offset only if one of them is empty. -/
theorem Apart.offset_ne {a b : TxFrame} (h : Apart a b) (ha : empty a = false) (hb : empty b = false) :
    a.offset ≠ b.offset := by
  have hae : a.endOff = a.offset + a.datalen := rfl
  have hbe : b.endOff = b.offset + b.datalen := rfl
  intro heq
  rcases h with ⟨hle, hfin⟩ | ⟨hle, hfin⟩
  · simp only [empty, hfin, Bool.not_false, Bool.and_true, decide_eq_false_iff_not] at ha
    omega
  · simp only [empty, hfin, Bool.not_false, Bool.and_true, decide_eq_false_iff_not] at hb
    omega

/-- A held frame goes into the queue. -/
theorem Tidy.push {s : TxStrm} {f : TxFrame} {held queue : List TxFrame} (h : Tidy s (f :: held))
    (hins : kslInsert f s.queue = some queue) : Tidy { s with queue := queue } held :=
  h.perm (((kslInsert_perm hins).append_right held).trans List.perm_middle.symm) (kslInsert_sorted h.sorted hins)

theorem Covered.push {s : TxStrm} {f : TxFrame} {held queue : List TxFrame} (h : Covered s (f :: held))
    (hins : kslInsert f s.queue = some queue) : Covered { s with queue := queue } held :=
  h.perm (((kslInsert_perm hins).append_right held).trans List.perm_middle.symm)

theorem Tidy.kslInsert_isSome {s : TxStrm} {f : TxFrame} {held : List TxFrame} (h : Tidy s (f :: held))
    (hne : ∀ g ∈ s.queue, g.offset = f.offset → empty g = false ∧ empty f = false) :
    ∃ queue, kslInsert f s.queue = some queue := by
  apply Strm.kslInsert_isSome
  intro g hg heq
  have hapart := (List.pairwise_append.mp h.apart).2.2 g hg f List.mem_cons_self
  obtain ⟨hge, hfe⟩ := hne g hg heq
  exact hapart.offset_ne hge hfe heq

theorem newFrame_bytes (s : TxStrm) (data : List UInt8) (fin : Bool) : (newFrame s data fin).bytes = data := by
  simp only [newFrame, bytes]
  split
  · rename_i h
    rw [h]
    rfl
  · rfl

theorem newFrame_endOff (s : TxStrm) (data : List UInt8) (fin : Bool) :
    (newFrame s data fin).endOff = s.offset + data.length := by
  rw [TxFrame.endOff, datalen, newFrame_bytes]
  rfl

theorem newFrame_ok (s : TxStrm) (data : List UInt8) (fin : Bool) : (newFrame s data fin).Ok := by
  refine ⟨?_, fun h => absurd rfl h⟩
  intro txbuf h
  simp only [newFrame] at h
  split at h
  · cases h
  · rename_i hne
    cases h
    exact ⟨hne, rfl⟩

theorem Tidy.accept {s : TxStrm} {held : List TxFrame} (h : Tidy s held) (hopen : s.shutWr = false) {data : List UInt8}
    (hlt : s.offset + data.length < uint64Max) (fin : Bool) :
    Tidy (accept s data.length fin) (newFrame s data fin :: held) := by
  have hnofin : ∀ f ∈ s.queue ++ held, f.fin = false := by
    intro f hf
    cases hfin : f.fin with
    | false => rfl
    | true =>
        have := ((h.frames f hf).fin hfin).2
        rw [hopen] at this
        cases this
  have hmem : ∀ f ∈ s.queue ++ newFrame s data fin :: held, f = newFrame s data fin ∨ f ∈ s.queue ++ held := by
    intro f hf
    rwa [List.perm_middle.mem_iff, List.mem_cons] at hf
  refine ⟨h.type, h.wf.mono (Nat.le_add_right _ _) hlt, ?_, ?_, h.sorted⟩
  · intro f hf
    rcases hmem f hf with rfl | hf
    · refine ⟨newFrame_ok s data fin, rfl, Nat.le_of_eq (newFrame_endOff s data fin), ?_⟩
      intro hfin
      have hfin : fin = true := hfin
      exact ⟨newFrame_endOff s data fin, by simp [StreamTx.accept, hfin]⟩
    · have hf' := h.frames f hf
      refine ⟨hf'.ok, hf'.data, Nat.le_trans hf'.le (Nat.le_add_right _ _), fun hfin => ?_⟩
      rw [hnofin f hf] at hfin
      cases hfin
  · refine (List.perm_middle.pairwise_iff Apart.symm).mpr (List.pairwise_cons.mpr ⟨?_, h.apart⟩)
    intro f hf
    exact Or.inr ⟨(h.frames f hf).le, hnofin f hf⟩

theorem Covered.accept {s : TxStrm} {held : List TxFrame} (h : Covered s held) (hopen : s.shutWr = false)
    (data : List UInt8) (fin : Bool) : Covered (accept s data.length fin) (newFrame s data fin :: held) := by
  constructor
  · intro x hx hm
    by_cases hold : x < s.offset
    · obtain ⟨f, hf, hin⟩ := h.bytes x hold hm
      refine ⟨f, ?_, hin⟩
      rw [List.perm_middle.mem_iff]
      exact List.mem_cons_of_mem _ hf
    · refine ⟨newFrame s data fin, ?_, Nat.not_lt.mp hold, ?_⟩
      · rw [List.perm_middle.mem_iff]
        exact List.mem_cons_self
      · rw [newFrame_endOff]
        exact hx
  · intro hshut
    simp only [StreamTx.accept, hopen, Bool.false_or] at hshut
    refine Or.inr ⟨newFrame s data fin, ?_, hshut⟩
    rw [List.perm_middle.mem_iff]
    exact List.mem_cons_self

theorem Tidy.ack {s : TxStrm} {held : List TxFrame} (h : Tidy s held) {f : TxFrame} (hf : FrameOf s f) :
    Tidy (ackFrame s f) held := by
  refine ⟨h.type, h.wf.ackData hf.le, ?_, h.apart, h.sorted⟩
  intro g hg
  have hg' := h.frames g hg
  exact ⟨hg'.ok, hg'.data, hg'.le, hg'.fin⟩

theorem Covered.ack {s : TxStrm} {held : List TxFrame} (ht : Tidy s held) (h : Covered s held) (f : TxFrame) :
    Covered (ackFrame s f) held := by
  constructor
  · intro x hx hm
    exact h.bytes x hx ((Acked.missing_ackData ht.wf f.offset f.datalen x).mp hm).1
  · intro hshut
    rcases h.fin hshut with hacked | hex
    · exact Or.inl (by simp [ackFrame, hacked])
    · exact Or.inr hex

/-- The acknowledged frame need not be held any more. -/
theorem Covered.ack_held {s : TxStrm} {f : TxFrame} {held : List TxFrame} (ht : Tidy s (f :: held))
    (h : Covered s (f :: held)) : Covered (ackFrame s f) held := by
  refine Covered.forget (h.ack ht f) ?_
  intro g hg
  rw [List.perm_middle.mem_iff, List.mem_cons] at hg
  rcases hg with rfl | hg
  · refine Or.inr ⟨?_, fun hfin => by simp [ackFrame, hfin]⟩
    intro x hx hx' hm
    exact ((Acked.missing_ackData ht.wf g.offset g.datalen x).mp hm).2 ⟨hx, hx'⟩
  · exact Or.inl hg

/-- A stream and the frames held for it outside of its queue. -/
structure StreamOk (s : TxStrm) (held : List TxFrame) : Prop where
  tidy : Tidy s held
  covered : s.resetStream = false → Covered s held
  opening : s.resetStream = false → ∀ f ∈ s.queue, empty f = true → s.offset = 0 ∧ s.shutWr = false
  once : (s.queue ++ held).countP empty ≤ 1
  atZero : ∀ f ∈ s.queue ++ held, empty f = true → f.offset = 0
  unsent : s.anySent = false → s.queue ++ held = [] ∧ s.offset = 0
  reset : s.resetStream = true → s.shutWr = true
  finShut : s.finAcked = true → s.shutWr = true

theorem StreamOk.perm {s : TxStrm} {held held' : List TxFrame} (h : StreamOk s held) (hp : held'.Perm held) :
    StreamOk s held' := by
  have hall := hp.append_left s.queue
  refine ⟨h.tidy.perm hall h.tidy.sorted, fun hreset => (h.covered hreset).perm hall, h.opening, ?_, ?_, ?_, h.reset, h.finShut⟩
  · rw [hall.countP_eq]
    exact h.once
  · intro f hf
    exact h.atZero f (hall.mem_iff.mp hf)
  · intro hunsent
    obtain ⟨hnil, hzero⟩ := h.unsent hunsent
    rw [hnil] at hall
    exact ⟨hall.eq_nil, hzero⟩

/-- Frames are forgotten that are acknowledged, or all of them if the stream is reset. -/
theorem StreamOk.forget {s : TxStrm} {queue held held' : List TxFrame} (h : StreamOk s held)
    (hq : queue.Sublist s.queue) (hl : held'.Sublist held)
    (hgone : s.resetStream = false → ∀ f ∈ s.queue ++ held, f ∈ queue ++ held' ∨
      (f.AllAcked s.acked.Missing ∧ (f.fin = true → s.finAcked = true))) :
    StreamOk { s with queue := queue } held' := by
  refine ⟨h.tidy.sublist hq hl, fun hreset => (h.covered hreset).forget (hgone hreset), ?_, ?_, ?_, ?_, h.reset, h.finShut⟩
  · intro hreset f hf
    exact h.opening hreset f (hq.subset hf)
  · exact Nat.le_trans (hq.append hl).countP_le h.once
  · intro f hf
    exact h.atZero f ((hq.append hl).subset hf)
  · intro hunsent
    obtain ⟨hnil, hzero⟩ := h.unsent hunsent
    exact ⟨List.sublist_nil.mp (hnil ▸ hq.append hl), hzero⟩

theorem StreamOk.insert {s : TxStrm} {f : TxFrame} {held queue : List TxFrame} (h : StreamOk s (f :: held))
    (hins : kslInsert f s.queue = some queue)
    (hopen : s.resetStream = false → empty f = true → s.offset = 0 ∧ s.shutWr = false) :
    StreamOk { s with queue := queue } held := by
  have hp : (queue ++ held).Perm (s.queue ++ f :: held) :=
    ((kslInsert_perm hins).append_right held).trans List.perm_middle.symm
  refine ⟨h.tidy.push hins, fun hreset => (h.covered hreset).push hins, ?_, ?_, ?_, ?_, h.reset, h.finShut⟩
  · intro hreset g hg
    rcases (kslInsert_mem hins).mp hg with rfl | hg
    · exact hopen hreset
    · exact h.opening hreset g hg
  · rw [hp.countP_eq]
    exact h.once
  · intro g hg
    exact h.atZero g (hp.mem_iff.mp hg)
  · intro hunsent
    obtain ⟨hnil, hzero⟩ := h.unsent hunsent
    rw [hnil] at hp
    exact ⟨hp.eq_nil, hzero⟩

theorem StreamOk.push {s : TxStrm} {f : TxFrame} {held : List TxFrame} (h : StreamOk s (f :: held))
    (hne : ∀ g ∈ s.queue, g.offset = f.offset → empty g = false ∧ empty f = false)
    (hopen : s.resetStream = false → empty f = true → s.offset = 0 ∧ s.shutWr = false) :
    streamfrqPush s.queue f = .error (.failed .internal) ∨
      ∃ queue, streamfrqPush s.queue f = .ok queue ∧ StreamOk { s with queue := queue } held := by
  obtain ⟨queue, hins⟩ := h.tidy.kslInsert_isSome hne
  rw [streamfrqPush, hins]
  split
  · exact Or.inl rfl
  · exact Or.inr ⟨queue, rfl, h.insert hins hopen⟩

/-- Data is accepted; zero-length data without FIN only as the first of the stream. -/
theorem StreamOk.accept {s : TxStrm} {held : List TxFrame} (h : StreamOk s held) (hopen : s.shutWr = false)
    {data : List UInt8} (hlt : s.offset + data.length < uint64Max) {fin : Bool}
    (hnew : data = [] → fin = false → s.anySent = false)
    (hq : ∀ f ∈ s.queue, empty f = false) : StreamOk (accept s data.length fin) (newFrame s data fin :: held) := by
  refine ⟨h.tidy.accept hopen hlt fin, fun hreset => (h.covered hreset).accept hopen data fin, ?_, ?_, ?_, ?_, ?_, ?_⟩
  · intro _ f hf hempty
    rw [hq f hf] at hempty
    cases hempty
  · change (s.queue ++ newFrame s data fin :: held).countP empty ≤ 1
    rw [List.perm_middle.countP_eq, List.countP_cons]
    have honce := h.once
    split
    · rename_i hempty
      simp only [empty, datalen, newFrame_bytes, Bool.and_eq_true, decide_eq_true_eq, Bool.not_eq_true'] at hempty
      rw [(h.unsent (hnew (List.length_eq_zero_iff.mp hempty.1) hempty.2)).1]
      exact Nat.le_refl 1
    · exact honce
  · intro f hf hempty
    rcases List.mem_cons.mp (List.perm_middle.mem_iff.mp hf) with rfl | hf
    · -- the first frame of the stream
      simp only [empty, datalen, newFrame_bytes, Bool.and_eq_true, decide_eq_true_eq, Bool.not_eq_true'] at hempty
      exact (h.unsent (hnew (List.length_eq_zero_iff.mp hempty.1) hempty.2)).2
    · exact h.atZero f hf hempty
  · intro hunsent
    cases hunsent
  · intro hreset
    have hshut := h.reset hreset
    rw [hopen] at hshut
    cases hshut
  · intro hfin
    have hshut := h.finShut hfin
    rw [hopen] at hshut
    cases hshut

theorem StreamOk.ack_finShut {s : TxStrm} {held : List TxFrame} (h : StreamOk s held) {f : TxFrame} (hf : FrameOf s f) :
    (ackFrame s f).finAcked = true → s.shutWr = true := by
  intro hfin
  rcases Bool.or_eq_true_iff.mp hfin with hfin | hfin
  · exact h.finShut hfin
  · exact (hf.fin hfin).2

theorem StreamOk.ack {s : TxStrm} {held : List TxFrame} (h : StreamOk s held) {f : TxFrame} (hf : FrameOf s f) :
    StreamOk (ackFrame s f) held :=
  ⟨h.tidy.ack hf, fun hreset => (h.covered hreset).ack h.tidy f, h.opening, h.once, h.atZero, h.unsent, h.reset,
    h.ack_finShut hf⟩

theorem StreamOk.ack_held {s : TxStrm} {f : TxFrame} {held : List TxFrame} (h : StreamOk s (f :: held)) :
    StreamOk (ackFrame s f) held := by
  have hf := h.tidy.frames f (List.mem_append_right _ List.mem_cons_self)
  have hsub : (s.queue ++ held).Sublist (s.queue ++ f :: held) :=
    (List.Sublist.refl _).append (List.sublist_cons_self f held)
  refine ⟨(h.tidy.ack hf).sublist (List.Sublist.refl _) (List.sublist_cons_self f held),
    fun hreset => (h.covered hreset).ack_held h.tidy, h.opening, Nat.le_trans hsub.countP_le h.once,
    fun g hg => h.atZero g (hsub.subset hg), ?_, h.reset, h.ack_finShut hf⟩
  intro hunsent
  obtain ⟨hnil, hzero⟩ := h.unsent hunsent
  exact ⟨List.sublist_nil.mp (hnil ▸ hsub), hzero⟩

end Zngtcp2.StreamTx
